import BlockStep.Act
import BlockStep.Instant
import BlockStep.Timeline

namespace BlockStep

structure MeshStep where
  start : Int
  step : Int
deriving DecidableEq, Repr, Inhabited

namespace MeshStep

def stop (m : MeshStep) : Int := m.start + m.step

/-- The tick up to which the mesh force has been applied. -/
def kickTick (m : MeshStep) : Int := kickPoint m.start m.step

/-- A whole number that has a residue modulo `Word.span` in unsigned or signed form. -/
def IsRaw (i : Int) : Prop := Word.least ≤ i ∧ i < Word.span

instance (i : Int) : Decidable (IsRaw i) := inferInstanceAs (Decidable (_ ∧ _))

/-- Starts a step of the given length where the current one ends. -/
def advance (m : MeshStep) (step tick : Int) : Except Fault MeshStep :=
  if tick ≠ m.stop then .error (.meshBoundary m.stop tick)
  else if ¬ IsRaw step then .error .wordOverflow
  else if !TickCount.isPowerOrZero (Word.wrap step) then .error (.meshStepLength step)
  else .ok ⟨m.stop, step⟩

end MeshStep

/-- What the estimate knows of each kind. -/
structure KindStats (α : Type) where
  /-- The sum of the squared speeds. -/
  sums : Vector α 6
  counts : Vector Int 6
  /-- The least mass above zero. -/
  leasts : Vector α 6

namespace KindStats

variable {α σ : Type} [Scalar α]

/-- The least mass of a kind without particles. -/
def leastSeed : α := 1.0e30

/-- The particles of a kind in the order of the store. -/
def members (store : Store α) (kind : Nat) : List (Particle α) :=
  store.toList.filter fun p => p.kind == Int.ofNat kind

def ofStore (store : Store α) : KindStats α where
  sums := Vector.ofFn fun k => Scalar.sum ((members store k).map fun p => p.vel.normSq)
  counts := Vector.ofFn fun k => Int.ofNat (members store k).length
  leasts := Vector.ofFn fun k =>
    (((members store k).map (·.mass)).filter fun m => (0.0 : α) < m).foldl Scalar.lower leastSeed

/-- The numbers of all ranks. -/
def reduced (s : KindStats α) : Act α σ (KindStats α) := do
  let sums ← Act.reduce .kindSums s.sums
  let counts ← Act.reduce .kindCounts s.counts
  let leasts ← Act.reduce .kindLeasts s.leasts
  pure ⟨sums, counts, leasts⟩

/-- Stars count as gas. -/
def withStars (s : KindStats α) : KindStats α :=
  let sum := s.sums[0] + s.sums[4]
  let count := s.counts[0] + s.counts[4]
  { s with sums := (s.sums.set 0 sum).set 4 sum, counts := (s.counts.set 0 count).set 4 count }

/-- Black holes count as gas, and have its least mass. -/
def withHoles (s : KindStats α) : KindStats α :=
  let sum := s.sums[0] + s.sums[5]
  let count := s.counts[0] + s.counts[5]
  { sums := (s.sums.set 0 sum).set 5 sum
    counts := (s.counts.set 0 count).set 5 count
    leasts := s.leasts.set 5 s.leasts[0] }

/-- Kinds that form from gas are taken together with it. -/
def merged (s : KindStats α) (f : Features) : KindStats α :=
  if !f.starFormation then s
  else if f.blackHoles then s.withStars.withHoles
  else s.withStars

end KindStats

namespace MeshStep

variable {α σ : Type} [Scalar α]

def isBaryonic (f : Features) (kind : Int) : Bool :=
  kind == Kind.gas || kind == Kind.star && f.starFormation || kind == Kind.hole && f.blackHoles

/-- The scale of the force split as a length. -/
def splitScale (c : Config α) : Except Fault α :=
  let cells : α := Scalar.ofInt c.mesh.cells
  if Scalar.isFinite cells then .ok (c.mesh.asmth * c.cosmology.boxSize / cells)
  else .error .realOverflow

/-- The mean spacing of particles of a mass under a mean density. -/
def spacing (mass density : α) : α := Scalar.pow (mass / density) (1.0 / 3.0)

/-- The root of a mean square. -/
def speed (sum : α) (count : Int) : Except Fault α :=
  let square := sum / Scalar.ofInt count
  if square < 0.0 then .error .rootOfNegative else .ok (Scalar.sqrt square)

/-- The longest step of a kind with a speed in `log a`. -/
def kindLength (c : Config α) (f : TimeFactors α) (scale speed : α) : α :=
  c.mesh.displacement * f.hubble * f.a * f.a * scale / speed

/-- The mean density of the matter that a kind belongs to. -/
def densityOf (c : Config α) (critical : α) (kind : Nat) : α :=
  (if isBaryonic c.features kind then c.cosmology.omegaBaryon else c.cosmology.omegaCdm) * critical

/-- Shortens the step for one kind; a kind without particles or without speed does not. -/
def limit (c : Config α) (f : TimeFactors α) (split critical : α) (s : KindStats α) (length : α)
    (kind : Fin 6) : Act α σ α := do
  if s.counts.get kind ≤ 0 then pure length
  else
    let between := spacing (s.leasts.get kind) (densityOf c critical kind)
    let v ← Act.lift (speed (s.sums.get kind) (s.counts.get kind))
    Act.tell (.kindMeasured kind between split (s.leasts.get kind) f.a v length)
    let most := kindLength c f (Scalar.lesser split between) v
    if (0.0 : α) < v ∧ some (kind.val : Int) ≠ c.mesh.fastKind ∧ most < length then pure most
    else pure length

/-- The kinds in their order. -/
def kinds : List (Fin 6) := List.finRange 6

/-- Why particles of a kind that does not exist cannot be measured: their number or their mass has
no place in the tables. -/
def unmeasured? (store : Store α) : Option Fault :=
  if store.any fun p => p.kind < 0 then some .outsideTable
  else if store.any fun p => !decide (Kind.Exists p.kind) && decide ((0.0 : α) < p.mass) then
    some .outOfRange
  else none

/-- The longest step in `log a` that no kind forbids. -/
def longest (c : Config α) (f : TimeFactors α) (store : Store α) : Act α σ α := do
  match unmeasured? store with
  | some e => Act.fail e
  | none => pure ()
  let s := (← (KindStats.ofStore store).reduced).merged c.features
  let split ← Act.lift (splitScale c)
  let critical ← Act.lift c.cosmology.criticalDensity
  kinds.foldlM (limit c f split critical s) c.step.maxSize

/-- The next long-range step in ticks, a power of two or none. -/
def next (c : Config α) (t : Timeline α) (f : TimeFactors α) (store : Store α) (epoch : Int) :
    Act α σ Int := do
  let length ← longest c f store
  let ticks := TickCount.roundDown (t.stepIn length epoch)
  Act.tell (.meshEstimated (t.length (Scalar.ofInt ticks) epoch) c.step.maxSize)
  if ticks = 0 then Act.tell (.meshVanishes length)
  pure ticks

end MeshStep

end BlockStep
