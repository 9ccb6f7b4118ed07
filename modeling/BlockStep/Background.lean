import BlockStep.Config
import BlockStep.Fault

namespace BlockStep

/-- Adiabatic index of the gas. -/
def gamma {α : Type} [Scalar α] : α := 5.0 / 3.0

namespace Scalar

variable {α : Type} [Scalar α]

/-- A quotient of plain numbers. -/
def quotient (x y : α) : Except Fault α := if y == 0.0 then .error .divisionByZero else .ok (x / y)

/-- A power of plain numbers. -/
def power (x y : α) : Except Fault α :=
  if x == 0.0 ∧ y < 0.0 then .error .divisionByZero
  else if x < 0.0 ∧ isFinite x ∧ !isWhole y then .error .powerNotReal
  else
    let z := pow x y
    if isFinite x ∧ isFinite y ∧ !isFinite z then .error .realOverflow else .ok z

end Scalar

/-- Conversions between comoving and physical quantities at one instant. -/
structure TimeFactors (α : Type) where
  a : α
  a2inv : α
  a3inv : α
  hubble : α

namespace CosmologyConfig

variable {α : Type} [Scalar α]

/-- The expansion rate at scale factor `a`. -/
def expansion (c : CosmologyConfig α) (a : α) : α :=
  let curvature := 1.0 - c.omega0 - c.omegaLambda
  c.hubble * Scalar.sqrt (c.omega0 / (a * a * a) + curvature / (a * a) + c.omegaLambda)

/-- The density of a flat universe today. -/
def criticalDensity (c : CosmologyConfig α) : Except Fault α := do
  let square ← Scalar.power c.hubble 2.0
  Scalar.quotient (3.0 * square) (8.0 * Scalar.pi * c.gravity)

def factors (c : CosmologyConfig α) (a : α) : Except Fault (TimeFactors α) := do
  let a2inv ← Scalar.quotient 1.0 (a * a)
  let a3inv ← Scalar.quotient 1.0 (a * a * a)
  .ok ⟨a, a2inv, a3inv, c.expansion a⟩

end CosmologyConfig

namespace SofteningConfig

variable {α : Type} [Scalar α]

/-- The comoving softening of each kind, so that its physical length stays below its bound. -/
def table (c : SofteningConfig α) (a : α) : Vector α 6 :=
  Vector.zipWith (fun soft most => if most < soft * a then most / a else soft)
    c.comoving c.maxPhysical

end SofteningConfig

end BlockStep
