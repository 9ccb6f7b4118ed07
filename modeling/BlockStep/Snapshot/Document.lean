import BlockStep.Given
import BlockStep.Snapshot
import BlockStep.Store.Document
import BlockStep.Store.Given

namespace BlockStep.Snapshot

namespace Field

def value : Field Float → Value
  | whole i => .whole i
  | real x => .real x
  | wholes is => .list (is.map .whole)
  | flags bs => .list (bs.map .bool)
  | store s => .map s.columns

end Field

def document (s : Snapshot Float) : Keyed Value := s.fields.map fun e => (e.1, e.2.value)

/-- The items of a list. -/
def items : Value → Except Fault (List Value)
  | .list vs => .ok vs
  | _ => .error .shapesDiffer

/-- A snapshot of particles from the document of its other fields. -/
def ofDocument (es : Keyed Value) (particles : Store Float) : Except Fault (Snapshot Float) := do
  let entry (name : String) := (Keyed.lookup name es).getD .null
  let whole (name : String) := Given.whole (entry name)
  .ok {
    version := ← whole "version"
    id := ← whole "snapshot_id"
    tick := ⟨← whole "epoch", ← whole "local_tick"⟩
    scaleFactor := ← Given.real (entry "scale_factor")
    meshStart := ← whole "pm_start"
    meshStep := ← whole "pm_step"
    binCount := ← (← items (entry "bin_count")).mapM Given.whole
    activeBins := (← items (entry "active_bins")).map Value.isTrue
    faultCount := ← whole "fault_count"
    particles := particles }

/-- The snapshot with its particles column by column. -/
def withArrays (s : Snapshot Float) : Snapshot Float (Keyed (Shaped Value)) :=
  s.mapParticles Store.arrays

def toStore {σ : Type} (s : Snapshot Float (Keyed (Shaped Value))) : Act Float σ (Store Float) :=
  Store.ofArrays s.particles

end BlockStep.Snapshot
