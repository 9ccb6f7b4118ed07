import BlockStep.Assign
import BlockStep.Criterion
import BlockStep.Glass
import BlockStep.Registry.Moves
import BlockStep.Report
import BlockStep.Stepper.Setup
import BlockStep.Sync

namespace BlockStep

/-- A rank in its run. -/
structure Stepper (α : Type) (n : Nat) where
  store : Store α
  registry : Registry n
  /-- The positions of the active particles. -/
  active : List Nat
  mesh : MeshStep
  current : Tick
  scaleFactor : α
  instant : Instant α
  phase : Phase
  /-- The number of completed cycles. -/
  cycle : Nat
  /-- The number of particles in due bins at the current tick. -/
  due : Int
  rows : List (Row α)
  /-- The snapshots made at aborts, under their numbers. -/
  shots : List (Int × Snapshot α)
  /-- The active particles and the tick of each computation of forces. -/
  seen : List (List Nat × Tick)

/-- Computes forces: the number of earlier computations, the active particles and the tick are
given, and the store may be changed. -/
abbrev Forces (α : Type) := Nat → List Nat → Tick → Act α (Store α) Unit

namespace Stepper

variable {α : Type} [Scalar α] {n : Nat}

/-- A step of a run. -/
abbrev Step (α : Type) (n : Nat) (β : Type) := Act α (Stepper α n) β

def currentAbsolute (u : Setup α) (s : Stepper α n) : Int := s.current.toAbsolute u.timebase

def isFinished (u : Setup α) (s : Stepper α n) : Bool :=
  u.timeline.endTick ≤ currentAbsolute u s

/-- The active particles in the order of the list. -/
def activeParticles (s : Stepper α n) : List (Particle α) := s.store.gather s.active

/-- A step that only the store takes part in. -/
def onStore {β : Type} (x : Act α (Store α) β) : Step α n β :=
  x.within (fun s => s.store) fun st s => { s with store := st }

def setPhase (p : Phase) : Step α n Unit := Act.modify fun s => { s with phase := p }

/-- Sets the scale factor and renews what depends on it. -/
def setTime (u : Setup α) (a : α) : Step α n Unit := do
  Act.modify fun s => { s with scaleFactor := a }
  let i ← Act.lift (u.config.instant a)
  Act.modify fun s => { s with instant := i }

/-- Counts all particles anew. -/
def recount : Step α n Unit := do
  let s ← Act.get
  let (r, due) := s.registry.recount s.store
  Act.set { s with registry := r }
  let due ← Act.lift due
  Act.modify fun s => { s with active := due }
  Act.tell (.recounted due.length s.store.size)

/-- Checks that the registry agrees with the store. -/
def checkCounts : Step α n Unit := do
  let s ← Act.get
  Act.lift (s.registry.check s.store.size (some s.store.kindTotals))

/-- Back to the first tick with every bin active and no mesh step. -/
def initBins (u : Setup α) : Step α n Unit := do
  Act.modify fun s => { s with mesh := ⟨0, 0⟩, current := ⟨0, 0⟩ }
  setTime u (u.timeline.scaleFactor 0)
  Act.modify fun s => { s with registry := { s.registry with active := .replicate n true } }
  recount
  checkCounts
  setPhase .idle

/-- A run before its first cycle. -/
def start (u : Setup α) (store : Store α) : Except Fault (Stepper α n) := do
  .ok {
    store := store
    registry := .empty n
    active := []
    mesh := ⟨0, 0⟩
    current := ⟨0, 0⟩
    scaleFactor := u.config.timeline.timeBegin
    instant := ← u.config.instant u.config.timeline.timeBegin
    phase := .idle
    cycle := 0
    due := 0
    rows := []
    shots := []
    seen := [] }

/-- Moves to the next due tick; also the number of particles in due bins. -/
def synchronize (u : Setup α) : Step α n (Tick × Int) := do
  setPhase .sync
  let s ← Act.get
  let next ← s.registry.agreeSync s.current u.timebase
  if next.toAbsolute u.timebase < currentAbsolute u s then
    Act.fail (.syncBackwards next s.current)
  let (r, due) := s.registry.markDue next
  Act.modify fun s => { s with registry := r, current := next }
  setTime u (u.timeline.scaleFactor (next.toAbsolute u.timebase))
  recount
  checkCounts
  Act.modify fun s => { s with due := due }
  let s ← Act.get
  Act.tell (.synchronized next s.scaleFactor s.active.length due)
  pure (next, due)

def snapshot (s : Stepper α n) (faults id : Int) : Snapshot α where
  version := Snapshot.currentVersion
  id := id
  tick := s.current
  scaleFactor := s.scaleFactor
  meshStart := s.mesh.start
  meshStep := s.mesh.step
  binCount := s.registry.count.toList
  activeBins := s.registry.active.toList
  faultCount := faults
  particles := s.store

/-- Ends the run with a snapshot. -/
def abort (u : Setup α) (faults : Int) : Step α n Unit := do
  Act.tell (.faultsSpotted faults)
  setPhase .aborted
  let id := Event.emergencyId
  Act.modify fun s => { s with shots := s.shots ++ [(id, s.snapshot faults id)] }
  match u.writer with
  | some w => Act.tell (.snapshotWritten id (w.path id))
  | none => pure ()
  Act.fail (.degenerateSteps faults)

/-- The desired steps; with equal steps all take the least. -/
def commonSteps (u : Setup α) (ds : List (DesiredStep α)) : Step α n (List Int) :=
  if u.config.step.equalSteps then do
    let least : Int ← Assign.equalStep (ds.map (·.ticks))
    if ¬ Word.Holds least then Act.fail .wordOverflow
    pure (ds.map fun _ => least)
  else pure (ds.map (·.ticks))

/-- A particle's step that ends and the one that follows it. -/
structure Turn (α : Type) where
  place : Nat
  before : Particle α
  next : Assign.Placement

namespace Turn

variable {α : Type}

/-- The tick at which the old step ends and the new one starts. -/
def boundary (t : Turn α) : Int := t.before.stepStart + TickCount.cadence t.before.bin

def move (t : Turn α) : Move := ⟨t.before.kind, t.before.bin, t.next.bin⟩

/-- From the middle of the old step to the middle of the new one, or only to the end of the old. -/
def stretch (toMiddle : Bool) (t : Turn α) : Stretch where
  place := t.place
  start := t.before.midpoint
  stop := if toMiddle then kickPoint t.boundary t.next.ticks else t.boundary

end Turn

def turns (s : Stepper α n) (placed : List Assign.Placement) : List (Turn α) :=
  List.zipWith (fun e p => ⟨e.1, e.2, p⟩) (s.active.zip s.activeParticles) placed

/-- Moves the active particles to their new bins; the number of those that change theirs. -/
def applyMoves (ts : List (Turn α)) : Step α n Nat := do
  let s ← Act.get
  let (r, moved) := s.registry.migrate (ts.map Turn.move)
  Act.set { s with registry := r }
  let moved ← Act.lift moved
  onStore (Act.modify fun st =>
    st.scatter (fun b p => { p with bin := b }) (ts.map (·.place)) (ts.map (·.next.bin)))
  pure moved

/-- Starts the new steps where the old ones end. -/
def beginSteps (ts : List (Turn α)) : Step α n Unit :=
  onStore (Act.modify fun st =>
    st.scatter (fun b p => { p with stepStart := b }) (ts.map (·.place)) (ts.map Turn.boundary))

/-- Kicks all particles by the mesh force and renews the mesh step. -/
def renewMesh (u : Setup α) (toMiddle : Bool) (ticks now : Int) : Step α n Unit := do
  setPhase .mesh
  let m := (← Act.get).mesh
  onStore (u.kicker.longRange m.kickTick (if toMiddle then kickPoint m.stop ticks else m.stop))
  let m' ← Act.lift (m.advance ticks now)
  Act.modify fun s => { s with mesh := m' }

/-- Gives the active particles new steps and kicks them, to the middle of the new steps or only to
the end of the old; the number of particles that change their bin. -/
def advance (u : Setup α) (toMiddle : Bool) : Step α n Nat := do
  setPhase .assign
  if u.config.features.makeGlass then
    let _ ← onStore (Glass.make u.config.cosmology)
  let s ← Act.get
  let now := currentAbsolute u s
  let epoch := s.current.epoch
  let atMesh := now == s.mesh.stop
  let meshTicks ←
    if atMesh then MeshStep.next u.config u.timeline s.instant.factors s.store epoch
    else pure s.mesh.step
  let ds ← Criterion.desired u.config u.timeline s.instant s.activeParticles meshTicks epoch
  let ticks ← commonSteps u ds
  let placed ← Assign.placeList n s.registry.active.toList ticks
    (ticks.zip (s.activeParticles.map (·.bin)))
  let faults := (ds.zip ticks).countP fun e =>
    e.1.isFault || Assign.isFault (TickCount.roundDown e.2)
  let ts := s.turns placed
  let moved ← applyMoves ts
  setPhase .kick
  beginSteps ts
  onStore (u.kicker.shortRange s.instant.factors (ts.map (Turn.stretch toMiddle)))
  let all : Int ← Act.reduce .faultCount (faults : Int)
  if all ≠ 0 then abort u all
  if atMesh then renewMesh u toMiddle meshTicks now
  setPhase .done
  pure moved

/-- Kicks the active particles and the mesh to the middles of their steps. -/
def halfKick (u : Setup α) : Step α n Unit := do
  let s ← Act.get
  onStore (u.kicker.half s.instant.factors s.active s.mesh)

/-- Lets the forces on the active particles be computed. -/
def callForces (forces : Option (Forces α)) (tick : Tick) : Step α n Unit := do
  match forces with
  | none => pure ()
  | some f =>
    let s ← Act.get
    Act.set { s with seen := s.seen ++ [(s.active, tick)] }
    onStore (f s.seen.length s.active tick)

/-- The row of the cycle that has just been completed. -/
def row (u : Setup α) (s : Stepper α n) (tick : Tick) (due : Int) (active : Nat) : Row α where
  report := {
    cycle := s.cycle
    tick := tick
    scaleFactor := s.scaleFactor
    active := active
    due := due
    meshStart := s.mesh.start
    meshStep := s.mesh.step }
  absoluteTick := tick.toAbsolute u.timebase
  digest := s.registry.digest
  phase := s.phase

/-- Runs one cycle. -/
def runCycle (u : Setup α) (forces : Option (Forces α)) : Step α n (Report α) := do
  let s ← Act.get
  if s.phase = .aborted then Act.fail .runAborted
  if isFinished u s then Act.fail .runFinished
  let (tick, due, active) ← Act.onFault (fun s => { s with phase := .aborted }) do
    let (tick, due) ← synchronize u
    setPhase .forces
    callForces forces tick
    let active := (← Act.get).active.length
    let _ ← advance u true
    pure (tick, due, active)
  let s ← Act.get
  let r := s.row u tick due active
  Act.set { s with rows := s.rows ++ [r], cycle := s.cycle + 1 }
  pure r.report

/-- Runs cycles up to a number, or to the end of the run. -/
def cycles (u : Setup α) (forces : Option (Forces α)) : Nat → Step α n (List (Report α))
  | 0 => pure []
  | k + 1 => do
    let s ← Act.get
    if isFinished u s then
      Act.tell (.endReached s.cycle)
      pure []
    else
      let r ← runCycle u forces
      let rs ← cycles u forces k
      pure (r :: rs)

/-- The channel under which a run announces itself. -/
def channel : String := "kickstep.stepper"

def run (u : Setup α) (forces : Option (Forces α)) (count : Int) : Step α n (List (Report α)) := do
  let s ← Act.get
  Act.tell (.stage channel "run" [("cycles", .whole count), ("particles", .whole s.store.size)])
  cycles u forces count.toNat

/-- The files that a writer has made of the snapshots. -/
def archive (s : Stepper α n) (w : SnapshotWriter) : Archive α :=
  s.shots.foldl (fun a e => w.write e.1 e.2 a) []

end Stepper

end BlockStep
