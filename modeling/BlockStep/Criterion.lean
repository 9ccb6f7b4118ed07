import BlockStep.Act
import BlockStep.Instant
import BlockStep.Timeline

namespace BlockStep

structure DesiredStep (α : Type) where
  ticks : Int
  isFault : Bool
  /-- The length in `log a`. -/
  length : α

namespace Criterion

variable {α : Type} [Scalar α]

/-- The acceleration of a particle on which no force acts. -/
def leastAcceleration : α := 1.0e-30

/-- The extent of a softening kernel over its smoothing length. -/
def kernelExtent : α := 2.8

/-- The physical acceleration, which is never zero. -/
def acceleration (f : TimeFactors α) (w : GasWeights α) (p : Particle α) : α :=
  let gravity := (p.gravAccel + p.meshAccel).scale f.a2inv
  let total := if p.isGas then gravity + p.hydroAccel.scale w.force else gravity
  if total.norm == 0.0 then leastAcceleration else total.norm

def softeningOf (s : StepConfig α) (i : Instant α) (p : Particle α) : α :=
  if s.adaptiveSoftening && p.isGas then p.smoothing / kernelExtent
  else i.softening.toArray.getD ((Store.position? Kind.count p.kind).getD 0) 0.0

/-- The time in which the acceleration moves a particle by a fraction of its softening. -/
def gravityBound (s : StepConfig α) (i : Instant α) (w : GasWeights α) (p : Particle α) : α :=
  Scalar.sqrt (2.0 * s.accuracy * i.factors.a * softeningOf s i p / acceleration i.factors w p)

/-- The time in which a signal crosses the smoothing length of gas. -/
def courantBound (s : StepConfig α) (f : TimeFactors α) (w : GasWeights α) (p : Particle α) : α :=
  2.0 * s.courant * f.a * p.smoothing / (w.signal * p.signalVel)

/-- A quarter of the time in which a black hole doubles its mass. -/
def accretionBound? (p : Particle α) : Option α :=
  if (0.0 : α) < p.holeRate ∧ (0.0 : α) < p.holeMass then some (0.25 * p.holeMass / p.holeRate)
  else none

/-- The step of the highest bin that a black hole may take. -/
def limitBound? (t : Timeline α) (f : TimeFactors α) (epoch : Int) (p : Particle α) : Option α :=
  if 0 < p.holeBinLimit then some (t.binLength p.holeBinLimit epoch / f.hubble) else none

/-- The bounds on the step of a particle beside gravity, in the order in which they are compared. -/
def bounds (c : Config α) (t : Timeline α) (f : TimeFactors α) (w : GasWeights α) (epoch : Int)
    (p : Particle α) : List α :=
  (if p.isGas then [courantBound c.step f w p] else [])
    ++ (if c.features.blackHoles && p.kind == Kind.hole then
        (accretionBound? p).toList ++ (limitBound? t f epoch p).toList
      else [])

/-- The longest step in `log a`. -/
def longest (c : Config α) (t : Timeline α) (i : Instant α) (w : GasWeights α) (epoch : Int)
    (p : Particle α) : α :=
  (bounds c t i.factors w epoch p).foldl Scalar.lesser (gravityBound c.step i w p)
    * i.factors.hubble

/-- Whole ticks between none and an epoch. -/
def wholeTicks (timebase : Int) (ticks : α) : Int :=
  if Scalar.isNaN ticks then 0
  else Scalar.trunc (Scalar.lesser (Scalar.larger ticks 0.0) (Scalar.ofInt timebase))

/-- The step for a length in `log a`, not above `most` ticks. -/
def stepOf (s : StepConfig α) (t : Timeline α) (most epoch : Int) (length : α) : DesiredStep α :=
  let length := if length < s.minSize then s.minSize else length
  let ticks := Scalar.lower (t.ticksIn length epoch) (Scalar.ofInt most)
  { ticks := wholeTicks t.timebase ticks
    isFault := Scalar.isNaN ticks || ticks ≤ (1.0 : α) || Scalar.ofInt t.timebase < ticks
    length := length }

/-- The weights that particles need; without gas none are computed. -/
def weightsFor (f : TimeFactors α) (ps : List (Particle α)) : Except Fault (GasWeights α) :=
  if ps.any Particle.isGas then f.gasWeights else .ok default

/-- The listed particles. -/
def listed (store : Store α) (indices : List Int) : Except Fault (List (Particle α)) := do
  .ok (store.gather (← store.places indices))

def accelerations (i : Instant α) (ps : List (Particle α)) : Except Fault (List α) := do
  let w ← weightsFor i.factors ps
  .ok (ps.map (acceleration i.factors w))

/-- The longest steps in `log a`. -/
def lengths (c : Config α) (t : Timeline α) (i : Instant α) (ps : List (Particle α)) (epoch : Int) :
    Except Fault (List α) := do
  let w ← weightsFor i.factors ps
  if ps.any fun p => (Store.position? Kind.count p.kind).isNone then .error .outOfRange
  .ok (ps.map (longest c t i w epoch))

/-- What is told about a step that is a fault. -/
def report (most : Int) (p : Particle α) (d : DesiredStep α) : List (Event α) :=
  if d.isFault then
    .stepBad p d.ticks d.length most :: (if p.isGas then [.gasBad p] else [])
  else []

/-- What is told about a list of steps. -/
def summary (most : Int) (ds : List (DesiredStep α)) : List (Event α) :=
  match ds with
  | [] => []
  | d :: rest =>
    [.stepsDesired ds.length most (rest.foldl (fun t d => min t d.ticks) d.ticks)
      (rest.foldl (fun t d => max t d.ticks) d.ticks) (ds.countP (·.isFault))]

/-- The step that all particles take: none without a long-range step `most`, and the long-range step
without tree gravity. -/
def common? (c : Config α) (t : Timeline α) (most epoch : Int) : Option (DesiredStep α) :=
  if most = 0 then some ⟨0, false, 0.0⟩
  else if !c.step.treeGravity then some ⟨most, false, t.length (Scalar.ofInt most) epoch⟩
  else none

/-- The steps that particles ask for, each by its own bounds. -/
def ownSteps {σ : Type} (c : Config α) (t : Timeline α) (i : Instant α) (ps : List (Particle α))
    (most epoch : Int) : Act α σ (List (DesiredStep α)) := do
  let ls ← Act.lift (lengths c t i ps epoch)
  let ds := ls.map (stepOf c.step t most epoch)
  Act.tellAll ((ps.zip ds).flatMap fun e => report most e.1 e.2)
  Act.tellAll (summary most ds)
  pure ds

/-- The steps that particles ask for, where `most` is the long-range step in force. -/
def desired {σ : Type} (c : Config α) (t : Timeline α) (i : Instant α) (ps : List (Particle α))
    (most epoch : Int) : Act α σ (List (DesiredStep α)) :=
  match common? c t most epoch with
  | some d => pure (ps.map fun _ => d)
  | none => ownSteps c t i ps most epoch

/-- As `desired` for particles named by indices, which are looked up only for steps of their own. -/
def desiredOf {σ : Type} (c : Config α) (t : Timeline α) (i : Instant α) (store : Store α)
    (indices : List Int) (most epoch : Int) : Act α σ (List (DesiredStep α)) :=
  match common? c t most epoch with
  | some d => pure (indices.map fun _ => d)
  | none => do ownSteps c t i (← Act.lift (listed store indices)) most epoch

end Criterion

end BlockStep
