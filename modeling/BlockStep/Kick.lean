import BlockStep.Act
import BlockStep.Instant
import BlockStep.Kick.Kernel
import BlockStep.KickSource
import BlockStep.MeshStep
import BlockStep.Shaped

namespace BlockStep

/-- A particle's place and the ticks over which it is kicked. -/
structure Stretch where
  place : Nat
  start : Int
  stop : Int
deriving DecidableEq, Repr

/-- What kicks are made with. -/
structure Kicker (α : Type) where
  source : KickSource α
  timebase : Int
  gas : GasConfig α
  /-- Each kick has to continue from the last one. -/
  isChecked : Bool
  /-- Particles are kicked in turn instead of at once. -/
  inTurn : Bool

def Config.kicker {α : Type} (c : Config α) (source : KickSource α) (inTurn : Bool) : Kicker α :=
  ⟨source, c.timeline.timebase, c.gas, c.debug.checkKicks, inTurn⟩

namespace Kicker

variable {α : Type} [Scalar α]

def particle (s : Store α) (k : Stretch) : Particle α := s[k.place]?.getD default

/-- A kick that does not start where the last one of its particle ended. -/
def gap? (s : Store α) (ks : List Stretch) : Option Fault :=
  (ks.find? fun k => (particle s k).kickTick != k.start).map fun k =>
    .kickGap (particle s k).id (particle s k).kickTick k.start

/-- Notes where the kicks end. -/
def noted (s : Store α) (ks : List Stretch) : Store α :=
  s.scatter (fun t p => { p with kickTick := t }) (ks.map (·.place)) (ks.map (·.stop))

/-- The weights of a gas particle's kick. -/
def gasKick (r : Kicker α) (s : Store α) (k : Stretch) : GasKick α where
  factor := r.source.factor k.start k.stop .hydro
  length := r.source.length (k.stop - k.start) (k.start.fdiv r.timebase)
  next := 0.5 * r.source.length (TickCount.cadence (particle s k).bin) (k.stop.fdiv r.timebase)

/-- The listed particles after their kicks, and how many were held at the least energy. -/
def kicked (r : Kicker α) (f : TimeFactors α) (s : Store α) (ks : List Stretch) : Store α × Nat :=
  let places := ks.map (·.place)
  let factors := ks.map fun k => r.source.factor k.start k.stop .gravity
  let gas := ks.filter fun k => (particle s k).isGas
  let gasPlaces := gas.map (·.place)
  let weights := gas.map (r.gasKick s)
  let limits := Kick.limits r.gas f
  if r.inTurn then
    Kick.gasInTurn limits (Kick.gravityInTurn s places factors) gasPlaces weights
  else Kick.gasAtOnce limits (Kick.gravityAtOnce s places factors) gasPlaces weights

/-- Kicks particles over their stretches; gas is limited by the bins that it is in by now. -/
def shortRange (r : Kicker α) (f : TimeFactors α) (ks : List Stretch) : Act α (Store α) Unit := do
  if ks.isEmpty then pure ()
  else
    if r.isChecked then
      match gap? (← Act.get) ks with
      | some e => Act.fail e
      | none => Act.modify fun s => noted s ks
    let s ← Act.get
    let (s', floored) := r.kicked f s ks
    Act.set s'
    Act.tell (.kicked ks.length (ks.countP fun k => (particle s k).isGas) floored r.inTurn)

/-- As `shortRange`, where indices name the particles, and starts and stops may be shared by all. -/
def shortRangeOf (r : Kicker α) (f : TimeFactors α) (indices : List Int)
    (starts stops : Shaped Int) : Act α (Store α) Unit := do
  if indices.isEmpty then pure ()
  else
    match starts.toRow? indices.length, stops.toRow? indices.length with
    | some ts, some us =>
      let places ← Act.lift ((← Act.get).places indices)
      r.shortRange f ((places.zip (ts.zip us)).map fun e => ⟨e.1, e.2.1, e.2.2⟩)
    | _, _ => Act.fail .shapesDiffer

/-- Gives all particles the mesh force between two ticks. -/
def longRange (r : Kicker α) (start stop : Int) : Act α (Store α) Unit := do
  let factor := r.source.factor start stop .gravity
  Act.modify fun s => s.map fun p => Kick.withVel p (p.vel + p.meshAccel.scale factor)
  Act.tell (.meshKicked start stop factor)

/-- The stretches from the starts of steps to their middles. -/
def openings (s : Store α) (places : List Nat) : List Stretch :=
  (places.zip (s.gather places)).map fun e => ⟨e.1, e.2.stepStart, e.2.midpoint⟩

/-- Kicks the listed particles to the middles of their steps, and all particles to the middle of the
mesh step. -/
def half (r : Kicker α) (f : TimeFactors α) (places : List Nat) (m : MeshStep) :
    Act α (Store α) Unit := do
  r.shortRange f (openings (← Act.get) places)
  r.longRange m.start m.kickTick

/-- The velocity at a tick, from which the kicks beyond it are taken back. -/
def velocityAt (r : Kicker α) (p : Particle α) (tick : Int) (m : MeshStep) : Vec3 α :=
  let v := p.vel - p.gravAccel.scale (r.source.factor tick p.midpoint .gravity)
    - p.meshAccel.scale (r.source.factor tick m.kickTick .gravity)
  if p.isGas then v - p.hydroAccel.scale (r.source.factor tick p.midpoint .hydro) else v

def energyAt (r : Kicker α) (p : Particle α) (tick : Int) : α :=
  p.energy + p.energyRate * r.source.length (tick - p.midpoint) (tick.fdiv r.timebase)

/-- The entropy variable; a negative energy has none. -/
def entropyAt (r : Kicker α) (p : Particle α) (tick : Int) : Except Fault α :=
  Scalar.power (r.energyAt p tick) (1.0 / gamma)

def pressureAt (r : Kicker α) (p : Particle α) (tick : Int) : α :=
  r.energyAt p tick * Scalar.pow p.eomDensity gamma

end Kicker

end BlockStep
