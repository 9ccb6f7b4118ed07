import BlockStep.Tick
import BlockStep.Text.Digit

namespace BlockStep

inductive Fault where
  /- the time line and its ticks -/
  | timelineOrder
  | ticksOverflow (epochs timebase : Int)
  | tooFewBins
  | tooManyBins
  | negativeTicks
  | tooFewSamples
  /- particle columns -/
  | kindMissing
  | columnShape (column : String) (shape expected : List Nat)
  | kindRange
  /- bins and their occupancy -/
  | maskLength (bins : Nat)
  | outsideTable
  | negativeOccupancy
  | totalMismatch (counted particles : Int)
  | kindSumMismatch
  | kindTotalsMismatch (counted expected : List Int)
  | binRange (least greatest : Int) (bins : Nat)
  /- the cycle -/
  | syncBackwards (next current : Tick)
  | meshBoundary (boundary tick : Int)
  | meshStepLength (step : Int)
  | kickGap (id last start : Int)
  | runAborted
  | runFinished
  | degenerateSteps (count : Int)
  | forcesFailed
  /- reductions and outputs -/
  | unknownTransport (name : String)
  | unknownReduction (name : String)
  | historyEmpty
  | snapshotFormat (name : String)
  | snapshotNotBinary
  | snapshotNotText
  /- settings -/
  | overrideForm (item : String)
  | overridePath (item : String)
  | overrideTraverse (item segment : String)
  | overrideTarget (item : String)
  | settingsRoot (path : String)
  | foreignKey
  /- arithmetic and the form of the input -/
  | divisionByZero
  | realOverflow
  | powerNotReal
  | rootOfNegative
  | wordOverflow
  | notANumber
  | missingNumber
  | shapesDiffer
  | outOfRange
  | kickKindUnknown
deriving DecidableEq, Repr

namespace Fault

/-- The greatest number of bins, for which packed ticks stay exact in a double. -/
def mostBins : Nat := 32

/-- A list of extents, with a comma behind a lone one. -/
def extents : List Nat → String
  | [] => "()"
  | [d] => "(" ++ toString d ++ ",)"
  | ds => "(" ++ String.intercalate ", " (ds.map toString) ++ ")"

def row (is : List Int) : String := "[" ++ String.intercalate ", " (is.map toString) ++ "]"

end Fault

/-- A position as its epoch and its tick in base sixteen. -/
def Tick.text (t : Tick) : String := toString t.epoch ++ ":" ++ Text.hex t.localTick

namespace Fault

def message : Fault → Option String
  | timelineOrder => "timeline requires 0 < time_begin < time_max"
  | ticksOverflow epochs timebase =>
    toString epochs ++ " epochs of " ++ toString timebase ++
      " ticks overflow the int64 tick counter"
  | tooFewBins => "timebins must be at least 2"
  | tooManyBins => "timebins must be at most " ++ toString mostBins
  | negativeTicks => "tick counts must be non-negative"
  | tooFewSamples => "samples_per_epoch must be at least 2"
  | kindMissing => "particle data must provide a 'kind' column"
  | columnShape column shape expected =>
    "particle column '" ++ column ++ "' has shape " ++ extents shape ++ ", expected "
      ++ extents expected
  | kindRange => "particle kinds must lie in [0, 6)"
  | maskLength bins => "active mask must have " ++ toString bins ++ " entries"
  | negativeOccupancy => "bin migration left a negative occupancy"
  | totalMismatch counted particles =>
    "bin counts sum to " ++ toString counted ++ " but " ++ toString particles
      ++ " particles are local"
  | kindSumMismatch => "per-kind bin counts disagree with the bin totals"
  | kindTotalsMismatch counted expected =>
    "per-kind bin counts " ++ row counted ++ " do not match particle kinds " ++ row expected
  | binRange least greatest bins =>
    "particle bins span [" ++ toString least ++ ", " ++ toString greatest ++ "], outside [0, "
      ++ toString bins ++ ")"
  | syncBackwards next current =>
    "next sync " ++ next.text ++ " precedes the current tick " ++ current.text
  | meshBoundary boundary tick =>
    "long-range step may only change at tick " ++ Text.hex boundary ++ ", not " ++ Text.hex tick
  | meshStepLength step => "long-range step " ++ toString step ++ " is not a power of two"
  | kickGap id last start =>
    "particle id=" ++ toString id ++ " was last kicked to tick " ++ Text.hex last
      ++ ", next kick starts at " ++ Text.hex start
  | runAborted => "stepper was aborted; no further cycles can run"
  | runFinished => "the run already reached the end of the timeline"
  | degenerateSteps count => "Ending due to bad timestep (" ++ toString count ++ " particles)"
  | unknownTransport name => "Unknown transport '" ++ name ++ "'"
  | unknownReduction name =>
    "Unsupported reduction '" ++ name ++ "'; expected one of ('min', 'max', 'sum')"
  | historyEmpty => "history is empty"
  | snapshotFormat name => "Unsupported snapshot format: " ++ name
  | overrideForm item => "Invalid override '" ++ item ++ "'; expected path=value"
  | overridePath item => "Invalid override '" ++ item ++ "'; empty path"
  | overrideTraverse item segment =>
    "Cannot traverse into non-mapping for override '" ++ item ++ "' at '" ++ segment ++ "'"
  | overrideTarget item => "Cannot set override '" ++ item ++ "'; target is not a mapping"
  | settingsRoot path => path ++ ": the YAML root must be a mapping"
  | foreignKey | outsideTable | forcesFailed | snapshotNotBinary | snapshotNotText | divisionByZero
  | realOverflow | powerNotReal | rootOfNegative | wordOverflow | notANumber | missingNumber
  | shapesDiffer | outOfRange | kickKindUnknown => none

end Fault

end BlockStep
