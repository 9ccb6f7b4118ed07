import BlockStep.Config
import BlockStep.Background
import BlockStep.Particle

namespace BlockStep

/-- Limits on the speed and the energy of gas at one instant. -/
structure GasLimits (α : Type) where
  /-- The greatest comoving speed. -/
  speed : α
  /-- The least energy before the density is taken into account; zero for none. -/
  energy : α
  a3inv : α
  /-- The power of the density by which the least energy is divided. -/
  exponent : α

/-- Weights of one particle's gas kick. -/
structure GasKick (α : Type) where
  factor : α
  /-- The length of the kick in `log a`. -/
  length : α
  /-- The length of the kick that follows. -/
  next : α

namespace Kick

variable {α : Type} [Scalar α]

def limits (g : GasConfig α) (f : TimeFactors α) : GasLimits α where
  speed := g.maxSpeed * Scalar.sqrt f.a3inv
  energy := g.minEnergy * (gamma - 1.0)
  a3inv := f.a3inv
  exponent := gamma - 1.0

/-- The least energy of gas of a density. -/
def leastEnergy (l : GasLimits α) (density : α) : α :=
  l.energy / Scalar.pow (density * l.a3inv) l.exponent

def withVel (p : Particle α) (v : Vec3 α) : Particle α := { p with vel := v }

/-- Gravity on all listed particles at once. -/
def gravityAtOnce (s : Store α) (places : List Nat) (factors : List α) : Store α :=
  let vels := List.zipWith (fun p k => p.vel + p.gravAccel.scale k) (s.gather places) factors
  s.scatter (fun v p => withVel p v) places vels

/-- Gravity on the listed particles in turn. -/
def gravityInTurn (s : Store α) (places : List Nat) (factors : List α) : Store α :=
  (places.zip factors).foldl (fun s e =>
    s.modify e.1 fun p => withVel p (p.vel + p.gravAccel.scale e.2)) s

/-- What a gas kick writes. -/
structure GasState (α : Type) where
  vel : Vec3 α
  energy : α
  rate : α

def withGas (g : GasState α) (p : Particle α) : Particle α :=
  { p with vel := g.vel, energy := g.energy, energyRate := g.rate }

def velColumn (l : GasLimits α) (ps : List (Particle α)) (ks : List (GasKick α)) : List (Vec3 α) :=
  (List.zipWith (fun p k => p.vel + p.hydroAccel.scale k.factor) ps ks).map fun v =>
    if l.speed < v.norm then v.scale (l.speed / v.norm) else v

/-- Energies after heating; a kick takes at most half of an energy. -/
def energyColumn (ps : List (Particle α)) (ks : List (GasKick α)) : List α :=
  List.zipWith (fun p k =>
    if p.energyRate * k.length < -0.5 * p.energy then 0.5 * p.energy
    else p.energy + p.energyRate * k.length) ps ks

/-- Which particles have less than the least energy. -/
def belowColumn (l : GasLimits α) (ps : List (Particle α)) (us : List α) : List Bool :=
  List.zipWith (fun p u => decide ((0.0 : α) < l.energy ∧ u < leastEnergy l p.eomDensity)) ps us

/-- The next kick may take at most half of an energy. -/
def rateLimited (next u rate : α) : α :=
  if (0.0 : α) < next ∧ rate * next < -0.5 * u then -0.5 * u / next else rate

/-- The gas parts of a kick of all listed particles at once, and how many were held at the least
energy. -/
def gasAtOnce (l : GasLimits α) (s : Store α) (places : List Nat) (ks : List (GasKick α)) :
    Store α × Nat :=
  let ps := s.gather places
  let us := energyColumn ps ks
  let below := belowColumn l ps us
  let us := List.zipWith (fun p e => if e.1 then leastEnergy l p.eomDensity else e.2)
    ps (below.zip us)
  let rates := List.zipWith (fun p b => if b then 0.0 else p.energyRate) ps below
  let rates := List.zipWith (fun k e => rateLimited k.next e.1 e.2) ks (us.zip rates)
  let states := List.zipWith (fun v e => GasState.mk v e.1 e.2) (velColumn l ps ks) (us.zip rates)
  (s.scatter withGas places states, below.countP id)

/-- The kick of one particle, step by step; also whether it was held at the least energy. -/
def gasOne (l : GasLimits α) (k : GasKick α) (p : Particle α) : Particle α × Bool :=
  let p := { p with vel := p.vel + p.hydroAccel.scale k.factor }
  let speed := p.vel.norm
  let p := if l.speed < speed then { p with vel := p.vel.scale (l.speed / speed) } else p
  let heat := p.energyRate * k.length
  let p :=
    if heat < -0.5 * p.energy then { p with energy := p.energy * 0.5 }
    else { p with energy := p.energy + heat }
  let least := leastEnergy l p.eomDensity
  let isHeld := decide ((0.0 : α) < l.energy ∧ p.energy < least)
  let p := if isHeld then { p with energy := least, energyRate := 0.0 } else p
  let p :=
    if (0.0 : α) < k.next ∧ p.energyRate * k.next < -0.5 * p.energy then
      { p with energyRate := -0.5 * p.energy / k.next }
    else p
  (p, isHeld)

/-- The gas parts of a kick of the listed particles in turn. -/
def gasInTurn (l : GasLimits α) (s : Store α) (places : List Nat) (ks : List (GasKick α)) :
    Store α × Nat :=
  (places.zip ks).foldl (fun r e =>
    match r.1[e.1]? with
    | some p =>
      let q := gasOne l e.2 p
      (r.1.set! e.1 q.1, if q.2 then r.2 + 1 else r.2)
    | none => r) (s, 0)

end Kick

end BlockStep
