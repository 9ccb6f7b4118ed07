import BlockStep.Config
import BlockStep.Keyed
import BlockStep.Particle
import BlockStep.Tick

namespace BlockStep

structure Snapshot (α : Type) (π : Type := Store α) where
  version : Int
  id : Int
  tick : Tick
  scaleFactor : α
  meshStart : Int
  meshStep : Int
  binCount : List Int
  activeBins : List Bool
  faultCount : Int
  particles : π

namespace Snapshot

variable {α π ρ : Type}

/-- The version of snapshots that a run makes. -/
def currentVersion : Int := 1

/-- A field of a snapshot written by name. -/
inductive Field (α : Type) (π : Type := Store α) where
  | whole (i : Int)
  | real (x : α)
  | wholes (is : List Int)
  | flags (bs : List Bool)
  | store (s : π)

/-- The fields in the order in which they are written. -/
def fields (s : Snapshot α π) : Keyed (Field α π) :=
  [("version", .whole s.version), ("snapshot_id", .whole s.id), ("epoch", .whole s.tick.epoch),
    ("local_tick", .whole s.tick.localTick), ("scale_factor", .real s.scaleFactor),
    ("pm_start", .whole s.meshStart), ("pm_step", .whole s.meshStep),
    ("bin_count", .wholes s.binCount), ("active_bins", .flags s.activeBins),
    ("fault_count", .whole s.faultCount), ("particles", .store s.particles)]

namespace Field

def whole? : Field α π → Option Int
  | whole i => some i
  | _ => none

def real? : Field α π → Option α
  | real x => some x
  | _ => none

def wholes? : Field α π → Option (List Int)
  | wholes is => some is
  | _ => none

def flags? : Field α π → Option (List Bool)
  | flags bs => some bs
  | _ => none

def store? : Field α π → Option π
  | store s => some s
  | _ => none

end Field

/-- A snapshot from its fields, in any order. -/
def ofFields? (fs : Keyed (Field α π)) : Option (Snapshot α π) := do
  let whole (name : String) := (Keyed.lookup name fs).bind Field.whole?
  pure {
    version := ← whole "version"
    id := ← whole "snapshot_id"
    tick := ⟨← whole "epoch", ← whole "local_tick"⟩
    scaleFactor := ← (Keyed.lookup "scale_factor" fs).bind Field.real?
    meshStart := ← whole "pm_start"
    meshStep := ← whole "pm_step"
    binCount := ← (Keyed.lookup "bin_count" fs).bind Field.wholes?
    activeBins := ← (Keyed.lookup "active_bins" fs).bind Field.flags?
    faultCount := ← whole "fault_count"
    particles := ← (Keyed.lookup "particles" fs).bind Field.store? }

/-- The snapshot with its particles in another form. -/
def mapParticles (f : π → ρ) (s : Snapshot α π) : Snapshot α ρ :=
  { s with particles := f s.particles }

end Snapshot

end BlockStep
