import BlockStep.History.Meaning
import BlockStep.History
import BlockStep.Registry

namespace BlockStep

/-- Where a run is inside a cycle. -/
inductive Phase where
  | idle
  | sync
  | forces
  | assign
  | kick
  | mesh
  | done
  | aborted
deriving DecidableEq, Repr

namespace Phase

def name : Phase → String
  | idle => "idle"
  | sync => "sync"
  | forces => "forces"
  | assign => "assign"
  | kick => "kick"
  | mesh => "pm"
  | done => "done"
  | aborted => "aborted"

end Phase

structure Report (α : Type) where
  cycle : Nat
  tick : Tick
  scaleFactor : α
  active : Nat
  /-- The number of particles in due bins on the way into the cycle. -/
  due : Int
  meshStart : Int
  meshStep : Int

/-- A cell of the history. -/
inductive Cell (α : Type) where
  | whole (i : Int)
  | real (x : α)
  | text (s : String)

/-- A completed cycle as the history keeps it. -/
structure Row (α : Type) where
  report : Report α
  absoluteTick : Int
  digest : Registry.Digest
  phase : Phase

namespace Row

variable {α : Type}

def cells (r : Row α) : List (Cell α) :=
  [.whole r.report.cycle, .whole r.report.tick.epoch, .whole r.report.tick.localTick,
    .whole r.absoluteTick, .real r.report.scaleFactor, .whole r.report.active, .whole r.report.due,
    .whole r.report.meshStart, .whole r.report.meshStep, .whole r.digest.occupied,
    .whole r.digest.least, .whole r.digest.greatest, .whole r.digest.binmask, .text r.phase.name]

def record (r : Row α) : History.Record (Cell α) := History.usualNames.zip (r.cells.map some)

end Row

/-- The history of completed cycles. -/
def historyOf {α : Type} (rows : List (Row α)) : History (Cell α) :=
  rows.foldl (fun h r => h.append r.record) (.ofNames History.usualNames)

end BlockStep
