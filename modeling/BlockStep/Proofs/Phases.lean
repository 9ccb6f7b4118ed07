import BlockStep.Proofs.Does
import BlockStep.Stepper

namespace BlockStep

/-- What active particles are given, in their order. -/
structure Allotment (α : Type) where
  /-- The mesh step in force. -/
  most : Int
  /-- The steps that they ask for. -/
  wishes : List (DesiredStep α)
  /-- The ticks by which they are placed, which equal steps have in common. -/
  ticks : List Int
  placed : List Assign.Placement

/-- Which particles have a fault. -/
def Allotment.faults {α : Type} (a : Allotment α) : List Bool :=
  List.zipWith (fun d w => d.isFault || Assign.isFault (TickCount.roundDown w)) a.wishes a.ticks

/-- The number of particles with a fault. -/
def Allotment.faultCount {α : Type} (a : Allotment α) : Nat := a.faults.countP id

namespace Stepper

variable {α : Type} [Scalar α] {n : Nat}

/-- What a rank is when it has agreed with the others on a next tick, and that tick. -/
def agree (timebase : Int) : Step α n (Stepper α n × Tick) := do
  setPhase .sync
  let s ← Act.get
  let next ← s.registry.agreeSync s.current timebase
  pure (s, next)

/-- A rank moves to a tick that all have agreed on. -/
def arrive (u : Setup α) (s : Stepper α n) (next : Tick) : Step α n (Tick × Int) := do
  if next.toAbsolute u.timebase < currentAbsolute u s then
    Act.fail (.syncBackwards next s.current)
  let (r, due) := s.registry.markDue next
  Act.modify fun s => { s with registry := r, current := next }
  setTime u (u.timeline.scaleFactor (next.toAbsolute u.timebase))
  recount
  checkCounts
  Act.modify fun s => { s with due := due }
  let s ← Act.get
  Act.tell (.synchronized next s.scaleFactor s.active.length due)
  pure (next, due)

/-- Particles are moved first where a glass is made. -/
def relax (u : Setup α) : Step α n Unit :=
  if u.config.features.makeGlass then do
    let _ ← onStore (Glass.make u.config.cosmology)
  else pure ()

/-- Forces, and a glass, before particles take new steps. -/
def prepare (u : Setup α) (forces : Option (Forces α)) (tick : Tick) : Step α n Nat := do
  setPhase .forces
  callForces forces tick
  let s ← Act.get
  setPhase .assign
  relax u
  pure s.active.length

/-- From the agreement on a tick to where new steps are taken. -/
def land (u : Setup α) (forces : Option (Forces α)) (s : Stepper α n) (next : Tick) :
    Step α n (Tick × Int × Nat) := do
  let r ← arrive u s next
  let active ← prepare u forces r.1
  pure (r.1, r.2, active)

/-- A cycle up to where new steps are taken. -/
def lead (u : Setup α) (forces : Option (Forces α)) : Step α n (Tick × Int × Nat) := do
  let r ← synchronize u
  let active ← prepare u forces r.1
  pure (r.1, r.2, active)

/-- The mesh step in force from a tick on. -/
def meshTicks (u : Setup α) (s : Stepper α n) : Step α n Int :=
  if currentAbsolute u s == s.mesh.stop then
    MeshStep.next u.config u.timeline s.instant.factors s.store s.current.epoch
  else pure s.mesh.step

/-- Gives the active particles their steps under a mesh step of `most` ticks. -/
def allot (u : Setup α) (s : Stepper α n) (most : Int) : Step α n (Allotment α) := do
  let ds ← Criterion.desired u.config u.timeline s.instant s.activeParticles most s.current.epoch
  let ticks ← commonSteps u ds
  let placed ← Assign.placeList n s.registry.active.toList ticks
    (ticks.zip (s.activeParticles.map (·.bin)))
  pure ⟨most, ds, ticks, placed⟩

def choose (u : Setup α) (s : Stepper α n) : Step α n (Allotment α) := do
  let most ← meshTicks u s
  allot u s most

/-- Lets active particles take their turns: they are moved, get new starts and are kicked. -/
def turnAll (u : Setup α) (toMiddle : Bool) (s : Stepper α n) (ts : List (Turn α)) :
    Step α n Nat := do
  let moved ← applyMoves ts
  setPhase .kick
  beginSteps ts
  onStore (u.kicker.shortRange s.instant.factors (ts.map (Turn.stretch toMiddle)))
  pure moved

/-- Ends the run for faults on any rank, or renews a mesh step that ends. -/
def conclude (u : Setup α) (toMiddle atMesh : Bool) (ticks now all : Int) : Step α n Unit := do
  if all ≠ 0 then abort u all
  if atMesh then renewMesh u toMiddle ticks now
  setPhase .done

/-- Sums the faults of all ranks and ends the cycle. -/
def sumUp (u : Setup α) (toMiddle : Bool) (s : Stepper α n) (a : Allotment α) : Step α n Unit := do
  let all : Int ← Act.reduce .faultCount (a.faultCount : Int)
  conclude u toMiddle (currentAbsolute u s == s.mesh.stop) a.most (currentAbsolute u s) all

def carryOut (u : Setup α) (toMiddle : Bool) (s : Stepper α n) (a : Allotment α) :
    Step α n Nat := do
  let moved ← turnAll u toMiddle s (s.turns a.placed)
  sumUp u toMiddle s a
  pure moved

def proceed (u : Setup α) (toMiddle : Bool) : Step α n Nat := do
  let s ← Act.get
  let a ← choose u s
  carryOut u toMiddle s a

/-- What happens in a cycle before its row is made. -/
def turnover (u : Setup α) (forces : Option (Forces α)) : Step α n (Tick × Int × Nat) := do
  let e ← lead u forces
  let _ ← proceed u true
  pure e

/-- What a cycle consists of where it is not refused at once. -/
def openCycle (u : Setup α) (forces : Option (Forces α)) : Step α n (Report α) := do
  let e ← Act.onFault (fun s => { s with phase := .aborted }) (turnover u forces)
  let s ← Act.get
  let r := s.row u e.1 e.2.1 e.2.2
  Act.set { s with rows := s.rows ++ [r], cycle := s.cycle + 1 }
  pure r.report

theorem synchronize_eq (u : Setup α) : synchronize u = (do
    let e ← agree u.timebase
    arrive u e.1 e.2 : Step α n (Tick × Int)) := by
  simp only [agree, bind_assoc, pure_bind]
  rfl

theorem lead_eq (u : Setup α) (forces : Option (Forces α)) : lead u forces = (do
    let e ← agree u.timebase
    land u forces e.1 e.2 : Step α n _) := by
  simp only [lead, synchronize_eq, land, bind_assoc]

omit [Scalar α] in
theorem ite_bind {β γ : Type} (c : Prop) [Decidable c] (x y : Step α n β) (f : β → Step α n γ) :
    (if c then x else y) >>= f = if c then x >>= f else y >>= f := by
  split <;> rfl

omit [Scalar α] in
theorem countP_zip_eq_faultCount (most : Int) (ds : List (DesiredStep α)) (ticks : List Int)
    (placed : List Assign.Placement) : ((ds.zip ticks).countP fun e =>
      e.1.isFault || Assign.isFault (TickCount.roundDown e.2)) =
        (Allotment.faultCount ⟨most, ds, ticks, placed⟩) := by
  rw [Allotment.faultCount, Allotment.faults, ← List.map_uncurry_zip_eq_zipWith, List.countP_map]
  rfl

theorem sumUp_bind {β : Type} (u : Setup α) (toMiddle : Bool) (s : Stepper α n) (a : Allotment α)
    (f : Unit → Step α n β) : sumUp u toMiddle s a >>= f = (do
      let all : Int ← Act.reduce .faultCount (a.faultCount : Int)
      conclude u toMiddle (currentAbsolute u s == s.mesh.stop) a.most (currentAbsolute u s) all
      f ()) := bind_assoc _ _ _

theorem advance_eq (u : Setup α) (toMiddle : Bool) : advance u toMiddle = (do
    setPhase .assign
    relax u
    proceed u toMiddle : Step α n Nat) := by
  simp only [advance, relax, proceed, choose, meshTicks, allot, carryOut, turnAll, sumUp_bind,
    conclude, bind_assoc, pure_bind, ite_bind, ← countP_zip_eq_faultCount]

theorem runCycle_eq (u : Setup α) (forces : Option (Forces α)) : runCycle u forces = (do
    let s ← Act.get
    if s.phase = .aborted then Act.fail .runAborted
    if isFinished u s then Act.fail .runFinished
    openCycle u forces : Step α n (Report α)) := by
  simp only [runCycle, openCycle, turnover, lead, prepare, advance_eq, bind_assoc, pure_bind]

/-- A cycle from where its ranks have agreed on a tick. -/
def closing (u : Setup α) (forces : Option (Forces α)) (s : Stepper α n) (next : Tick) :
    Step α n (Report α) := do
  let e ← Act.onFault (fun s => { s with phase := .aborted }) do
    let e ← land u forces s next
    let _ ← proceed u true
    pure e
  let s ← Act.get
  let r := s.row u e.1 e.2.1 e.2.2
  Act.set { s with rows := s.rows ++ [r], cycle := s.cycle + 1 }
  pure r.report

theorem openCycle_eq_agree (u : Setup α) (forces : Option (Forces α)) : openCycle u forces = (do
    let e ← Act.onFault (fun s => { s with phase := .aborted }) (agree u.timebase)
    closing u forces e.1 e.2 : Step α n _) := by
  simp only [openCycle, turnover, lead_eq, closing, bind_assoc, Act.onFault_bind]

omit [Scalar α] in
theorem get_bind_apply {β : Type} (f : Stepper α n → Step α n β) (s : Stepper α n) :
    (Act.get >>= f) s = f s s := by
  change (f s s).map (Act.Outcome.after #[]) = f s s
  simp only [Collective.map_eq_bind, Act.Outcome.after_empty]
  exact Collective.bind_done _

theorem proceed_apply (u : Setup α) (toMiddle : Bool) (s : Stepper α n) :
    proceed u toMiddle s = (do
      let a ← choose u s
      carryOut u toMiddle s a : Step α n Nat) s := get_bind_apply _ s

theorem proceed_apply_allot (u : Setup α) (toMiddle : Bool) (s : Stepper α n) :
    proceed u toMiddle s = (do
      let most ← meshTicks u s
      let a ← allot u s most
      carryOut u toMiddle s a : Step α n Nat) s := by
  rw [proceed_apply, choose, bind_assoc]

variable {u : Setup α} {s : Stepper α n}

theorem runCycle_apply (forces : Option (Forces α)) (hp : s.phase ≠ .aborted)
    (hf : ¬ isFinished u s) : runCycle u forces s = openCycle u forces s := by
  rw [runCycle_eq, get_bind_apply]
  simp only [if_neg hp, if_neg hf]

theorem does_runCycle_of_aborted (u : Setup α) (forces : Option (Forces α))
    (h : s.phase = .aborted) : (runCycle u forces).Does s (.error .runAborted) s := by
  rw [runCycle_eq]
  refine Act.does_bind_error.2 (.inr ⟨s, s, Act.does_get.2 ⟨rfl, rfl⟩, ?_⟩)
  rw [if_pos h]
  exact Act.does_bind_error.2 (.inl (Act.does_fail.2 ⟨rfl, rfl⟩))

theorem does_runCycle_of_finished (forces : Option (Forces α)) (hp : s.phase ≠ .aborted)
    (h : isFinished u s) : (runCycle u forces).Does s (.error .runFinished) s := by
  rw [runCycle_eq]
  refine Act.does_bind_error.2 (.inr ⟨s, s, Act.does_get.2 ⟨rfl, rfl⟩, ?_⟩)
  simp only [if_neg hp, if_pos h]
  exact Act.does_bind_error.2 (.inl (Act.does_fail.2 ⟨rfl, rfl⟩))

end Stepper

end BlockStep
