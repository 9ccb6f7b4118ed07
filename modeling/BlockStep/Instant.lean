import BlockStep.Background

namespace BlockStep

structure Instant (α : Type) where
  factors : TimeFactors α
  /-- The comoving softening of each kind. -/
  softening : Vector α 6

/-- Weights of gas quantities at one instant. -/
structure GasWeights (α : Type) where
  /-- Turns a hydro acceleration into a physical one. -/
  force : α
  /-- Turns a signal speed into a physical one. -/
  signal : α

variable {α : Type} [Scalar α]

instance : Inhabited (GasWeights α) := ⟨⟨1.0, 1.0⟩⟩

def TimeFactors.gasWeights (f : TimeFactors α) : Except Fault (GasWeights α) := do
  let force ← Scalar.quotient 1.0 (← Scalar.power f.a (3.0 * gamma - 2.0))
  let signal ← Scalar.power f.a (3.0 * (1.0 - gamma) / 2.0)
  .ok ⟨force, signal⟩

def Config.instant (c : Config α) (a : α) : Except Fault (Instant α) := do
  .ok ⟨← c.cosmology.factors a, c.softening.table a⟩

end BlockStep
