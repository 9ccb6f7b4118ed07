import BlockStep.Proofs.Fleet

namespace BlockStep

instance : Scalar Rat where
  decideLt := inferInstance
  decideLe := inferInstance
  ofInt := Rat.ofInt
  floor x := x.floor
  trunc x := x.num.tdiv x.den
  sqrt x := mkRat (Nat.sqrt (x.num.toNat * x.den * 1000000000000)) (x.den * 1000000)
  exp x := 1 + x
  log x := x - 1
  pow x y := if y.den = 1 then x ^ y.num else 1
  pi := 3.14159265

theorem Scalar.isNaN_rat (x : Rat) : Scalar.isNaN x = false := by
  rw [Scalar.isNaN, beq_self_eq_true]
  rfl

namespace Sample

/-- An epoch of eight ticks between the scale factors one and two, where all particles take the mesh
step. -/
def config : Config Rat where
  timeline := ⟨4, 1, 2, []⟩
  cosmology := ⟨1, 1, 0, 1, 0.01, 128⟩
  softening := default
  step := { (default : StepConfig Rat) with maxSize := 1, treeGravity := false }
  mesh := ⟨1, 128, 0.375, none⟩
  gas := default
  features := default
  debug := default
  transport := .many
  output := default

def setup : Setup Rat where
  config := config
  timeline := Timeline.ofEdges [0, 1] 8
  kicker := config.kicker (.linear 0.01 0.125) false
  writer := none

def fleet : Fleet Rat 1 := ⟨setup, fun _ => none, fun _ _ => none⟩

def particle (id : Int) : Particle Rat :=
  { (default : Particle Rat) with id := id, kind := 1, mass := 1, vel := ⟨1, 0, 0⟩ }

def store : Ranks 1 (Store Rat)
  | 0 => #[particle 0, particle 1]
  | 1 => #[particle 2]

theorem isMade : setup.IsMade := ⟨by decide, by decide, rfl⟩

theorem keepsSchedule : fleet.KeepsSchedule := fun _ => Forces.keepSchedule_none

theorem bin_eq_zero (i : Fin 2) : ∀ p ∈ store i, p.bin = 0 ∧ p.stepStart = 0 := by
  match i with
  | 0 => simp [store, particle, default, Particle.zero]
  | 1 => simp [store, particle, default, Particle.zero]

end Sample

end BlockStep
