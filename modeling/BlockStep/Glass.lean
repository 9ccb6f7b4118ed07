import BlockStep.Act
import BlockStep.MeshStep

namespace BlockStep.Glass

variable {α : Type} [Scalar α]

/-- The reversed tree force with the mesh force taken into it. -/
def reversed (p : Particle α) : Particle α :=
  { p with gravAccel := -p.gravAccel - p.meshAccel, meshAccel := .zero }

/-- Moves a particle along its force and leaves it at rest. -/
def moved (factor toLength : α) (p : Particle α) : Particle α :=
  { p with
    vel := .zero
    pos := p.pos + (p.gravAccel.scale factor).scale toLength
    gravAccel := .zero }

/-- The greatest displacement; none without particles. -/
def greatest (toLength : α) (s : Store α) : α :=
  match s.toList.map fun p => p.gravAccel.norm * toLength with
  | [] => 0.0
  | d :: ds => ds.foldl Scalar.upper d

/-- The part of their displacements by which particles move. -/
def factorFor (spacing greatest : α) : α :=
  if (0.0 : α) < greatest then Scalar.lesser 1.0 (spacing / greatest) else 1.0

def make (c : CosmologyConfig α) : Act α (Store α) α := do
  Act.modify fun s => s.map reversed
  let toLength ← Act.lift (Scalar.quotient 2.0 (3.0 * c.hubble * c.hubble))
  let all : α ← Act.reduce .greatestLength (greatest toLength (← Act.get) : α)
  let mass := ((← Act.get)[0]?.map (·.mass)).getD 0.0
  let ratio ← Act.lift (Scalar.quotient mass (c.omega0 * (← Act.lift c.criticalDensity)))
  match Scalar.power ratio (1.0 / 3.0) with
  | .ok spacing =>
    let factor := factorFor spacing all
    Act.tell (.glassMade spacing all)
    Act.modify fun s => s.map (moved factor toLength)
    pure factor
  | .error e =>
    -- a spacing that is not real only matters where displacements are compared with it
    if (0.0 : α) < all then Act.fail e
    Act.modify fun s => s.map (moved 1.0 toLength)
    pure 1.0

end BlockStep.Glass
