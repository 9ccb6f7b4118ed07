import BlockStep.Fault
import BlockStep.Text.Lines

namespace BlockStep

/-- How ranks reduce: one rank alone, or many by message passing. -/
inductive Transport where
  | single
  | many
deriving DecidableEq, Inhabited

namespace Transport

def name : Transport → String
  | single => "single"
  | many => "mpi"

/-- A transport by its name, in any case. -/
def ofName (name : String) : Except Fault Transport :=
  match [single, many].find? fun t => t.name == Text.lower name with
  | some t => .ok t
  | none => .error (.unknownTransport name)

end Transport

/-- The operations that a transport can reduce by. -/
def reductionNames : List String := ["min", "max", "sum"]

/-- What a rank without others gets back from a reduction. -/
def reduceAlone {β : Type} (name : String) (b : β) : Except Fault β :=
  if reductionNames.contains (Text.lower name) then .ok b else .error (.unknownReduction name)

end BlockStep
