import BlockStep.Keyed
import BlockStep.Particle

namespace BlockStep

/-- A quantity of a particle, and how it is changed. -/
inductive Column (α : Type) where
  | whole (get : Particle α → Int) (set : Int → Particle α → Particle α)
  | real (get : Particle α → α) (set : α → Particle α → Particle α)
  | vector (get : Particle α → Vec3 α) (set : Vec3 α → Particle α → Particle α)

/-- The entries of a column. -/
inductive ColumnCells (α : Type) where
  | wholes (is : List Int)
  | reals (xs : List α)
  | vectors (vs : List (Vec3 α))

namespace Column

variable {α : Type}

/-- The columns of a store in their order. -/
def all : Keyed (Column α) :=
  [("ids", .whole (·.id) fun i p => { p with id := i }),
    ("kind", .whole (·.kind) fun i p => { p with kind := i }),
    ("mass", .real (·.mass) fun x p => { p with mass := x }),
    ("pos", .vector (·.pos) fun v p => { p with pos := v }),
    ("vel", .vector (·.vel) fun v p => { p with vel := v }),
    ("grav_accel", .vector (·.gravAccel) fun v p => { p with gravAccel := v }),
    ("pm_accel", .vector (·.meshAccel) fun v p => { p with meshAccel := v }),
    ("time_bin", .whole (·.bin) fun i p => { p with bin := i }),
    ("step_start_tick", .whole (·.stepStart) fun i p => { p with stepStart := i }),
    ("kick_tick", .whole (·.kickTick) fun i p => { p with kickTick := i }),
    ("hsml", .real (·.smoothing) fun x p => { p with smoothing := x }),
    ("density", .real (·.density) fun x p => { p with density := x }),
    ("max_signal_vel", .real (·.signalVel) fun x p => { p with signalVel := x }),
    ("hydro_accel", .vector (·.hydroAccel) fun v p => { p with hydroAccel := v }),
    ("internal_energy", .real (·.energy) fun x p => { p with energy := x }),
    ("energy_rate", .real (·.energyRate) fun x p => { p with energyRate := x }),
    ("eom_density", .real (·.eomDensity) fun x p => { p with eomDensity := x }),
    ("bh_mass", .real (·.holeMass) fun x p => { p with holeMass := x }),
    ("bh_mdot", .real (·.holeRate) fun x p => { p with holeRate := x }),
    ("bh_timebin_limit", .whole (·.holeBinLimit) fun i p => { p with holeBinLimit := i })]

/-- The extents of the column in a store of `n` particles. -/
def extents (n : Nat) : Column α → List Nat
  | whole .. | real .. => [n]
  | vector .. => [n, 3]

def read (s : Store α) : Column α → ColumnCells α
  | whole get _ => .wholes (s.toList.map get)
  | real get _ => .reals (s.toList.map get)
  | vector get _ => .vectors (s.toList.map get)

/-- The store with other entries in the column, particle by particle. -/
def write (s : Store α) : Column α → ColumnCells α → Store α
  | whole _ set, .wholes is => (List.zipWith set is s.toList).toArray
  | real _ set, .reals xs => (List.zipWith set xs s.toList).toArray
  | vector _ set, .vectors vs => (List.zipWith set vs s.toList).toArray
  | _, _ => s

end Column

end BlockStep
