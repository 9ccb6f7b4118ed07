import BlockStep.Document.Print
import BlockStep.Fault
import BlockStep.Given

namespace BlockStep

inductive Alarm where
  | general
  | settings
  | degenerateStep
  | kickTime
  | invariant
  | transport
deriving DecidableEq

namespace Alarm

def all : List Alarm := [general, settings, degenerateStep, kickTime, invariant, transport]

def name : Alarm → String
  | general => "KickstepError"
  | settings => "ConfigurationError"
  | degenerateStep => "DegenerateStepError"
  | kickTime => "KickTimeMismatchError"
  | invariant => "InvariantViolationError"
  | transport => "TransportError"

/-- The families that a family belongs to, from the widest. -/
def bases : Alarm → List String
  | general => ["KickstepError"]
  | settings => ["KickstepError", "ValueError"]
  | degenerateStep | kickTime | invariant | transport => ["KickstepError", "RuntimeError"]

def ofName? (name : String) : Option Alarm := all.find? fun a => a.name == name

/-- One detail is shown as it is, several are listed. -/
def textOf : List Value → String
  | [] => ""
  | [.text s] => s
  | [v] => v.listed
  | vs => "(" ++ String.intercalate ", " (Value.listedItems vs) ++ ")"

/-- The number of faults that an error tells of. -/
def faultCount? (a : Alarm) (details : List Value) : Option Int :=
  match a, details with
  | degenerateStep, count :: _ => (Given.whole count).toOption
  | _, _ => none

/-- The text of an error of the family with some details. Degenerate steps have a usual text, which
a second detail replaces if there is something in it. -/
def text (a : Alarm) (details : List Value) : String :=
  match a.faultCount? details with
  | none => textOf details
  | some count =>
    match details.drop 1 with
    | detail :: _ => if detail.isTrue then textOf [detail] else usual count
    | [] => usual count
where
  usual (count : Int) : String := ((Fault.degenerateSteps count).message).getD ""

def short (a : Alarm) (text : String) : String := a.name ++ ": " ++ text

end Alarm

/-- The family of a cause; arithmetic and the form of the input have none. -/
def Fault.alarm? : Fault → Option Alarm
  | timelineOrder | ticksOverflow .. | kindMissing | columnShape .. | kindRange
  | unknownTransport .. | overrideForm .. | overridePath .. | overrideTraverse .. |
      overrideTarget .. | settingsRoot .. =>
    some .settings
  | negativeOccupancy | totalMismatch .. | kindSumMismatch | kindTotalsMismatch .. | binRange ..
  | syncBackwards .. | meshBoundary .. | meshStepLength .. | runAborted | runFinished =>
    some .invariant
  | kickGap .. => some .kickTime
  | degenerateSteps .. => some .degenerateStep
  | unknownReduction .. => some .transport
  | _ => none

end BlockStep
