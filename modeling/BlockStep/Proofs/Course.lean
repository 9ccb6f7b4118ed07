import BlockStep.Proofs.MeshLength
import BlockStep.Proofs.Turnover
import Mathlib.Order.Bounds.Basic

namespace BlockStep

variable {α σ : Type} [Scalar α] {m n : Nat}

structure Course (α : Type) where
  next : Tick
  instant : Instant α
  /-- The mesh step in force. -/
  most : Int
  /-- The step that all particles take, if they take equal steps. -/
  least? : Option Int

namespace Course

variable (u : Setup α) (n : Nat) (mesh : MeshStep) (c : Course α)

/-- The step that a particle asks for. -/
def wish (p : Particle α) : DesiredStep α :=
  Criterion.wish u.config u.timeline c.instant c.most c.next.epoch p

/-- The ticks from which the bin of a particle is found. -/
def want (p : Particle α) : Int := c.least?.getD (c.wish u p).ticks

omit [Scalar α] in
def isActive (b : Nat) : Bool := (Registry.dueMask n c.next.localTick)[b]?.getD false

omit [Scalar α] in
def isDue (p : Particle α) : Bool := c.isActive n p.bin.toNat

/-- The mesh step ends. -/
def atMesh : Bool := c.next.toAbsolute u.timebase == mesh.stop

def isFault (p : Particle α) : Bool :=
  (c.wish u p).isFault || Assign.isFault (TickCount.roundDown (c.want u p))

/-- A particle with the step that it has from the tick on. -/
def turned (p : Particle α) : Particle α :=
  if c.isDue n p then
    Stepper.turnTo true u.kicker c.instant.factors n (c.isActive n) (c.want u) p
  else p

def after (p : Particle α) : Particle α :=
  if c.atMesh u mesh then Stepper.meshKick true u.kicker mesh c.most (c.turned u n p)
  else c.turned u n p

def meshAfter : MeshStep := if c.atMesh u mesh then ⟨mesh.stop, c.most⟩ else mesh

/-- The steps of which equal steps are the least. -/
def Steps (store : Ranks m (Store α)) : Set Int :=
  {t | t = Assign.leastSeed ∨ ∃ i, ∃ p ∈ store i, c.isDue n p ∧ t = (c.wish u p).ticks}

/-- Ranks with these particles find the mesh step of the course. -/
structure Meshed (store : Ranks m (Store α)) : Prop where
  renewed : c.atMesh u mesh → MeshStep.ticksOf u.config u.timeline c.instant.factors
    (.agreed fun i => .ofStore (store i)) c.next.epoch = .ok c.most
  kept : ¬ c.atMesh u mesh → c.most = mesh.step

/-- Ranks with these particles find the course together, and no rank fails on its own. -/
structure Agreed (store : Ranks m (Store α)) : Prop extends c.Meshed u mesh store where
  equal : u.config.step.equalSteps →
    ∃ l, c.least? = some l ∧ Word.Holds l ∧ IsLeast (c.Steps u n store) l
  own : ¬ u.config.step.equalSteps → c.least? = none
  measured : ∀ i, ∀ p ∈ store i, c.isDue n p →
    Criterion.IsMeasured u.config u.timeline c.instant c.most c.next.epoch p
  accepted : ∀ i, ∀ p ∈ store i, c.isDue n p → Stepper.IsAccepted u.kicker (c.want u) p

def faults (store : Ranks m (Store α)) : Int :=
  Ranks.total fun i => ((store i).countP fun p => c.isDue n p && c.isFault u p : Nat)

variable {n}

/-- A rank whose due particles have new steps, before the mesh kick. -/
structure Turned (store : Store α) (s : Stepper α n) : Prop where
  counts : s.registry.Counts s.store
  active : store.Lists (c.isDue n) s.active
  store : s.store = store.map (c.turned u n)
  current : s.current = c.next
  mesh : s.mesh = mesh

/-- A rank whose particles have gone through the course. -/
structure Ran (store : Store α) (s : Stepper α n) : Prop where
  counts : s.registry.Counts s.store
  /-- The particles that were due. -/
  active : store.Lists (c.isDue n) s.active
  store : s.store = store.map (c.after u n mesh)
  current : s.current = c.next
  mesh : s.mesh = c.meshAfter u mesh
  phase : s.phase = .done

variable {u mesh c}

theorem slot_after (p : Particle α) : (c.after u n mesh p).slot =
    if c.isDue n p then
      ⟨p.kind, (Assign.place n (c.isActive n) (c.want u p) p.bin).bin, p.slot.stop⟩
    else p.slot := by
  have hmesh (q : Particle α) : (if c.atMesh u mesh then
      Stepper.meshKick true u.kicker mesh c.most q else q).slot = q.slot := by
    split <;> rfl
  rw [after, hmesh, turned]
  by_cases h : c.isDue n p
  · rw [if_pos h, if_pos h, Stepper.slot_turnTo]
  · rw [if_neg h, if_neg h]

theorem Ran.mem_active {store : Store α} {s : Stepper α n} (h : c.Ran u mesh store s) {l : Nat}
    {p : Particle α} (hl : store[l]? = some p) : l ∈ s.active ↔ c.isDue n p := by
  rw [h.active.mem_iff]
  constructor
  · rintro ⟨q, hq, hd⟩
    rw [hl] at hq
    cases hq
    exact hd
  · exact fun hd => ⟨p, hl, hd⟩

theorem Ran.getElem?_store {store : Store α} {s : Stepper α n} (h : c.Ran u mesh store s) {l : Nat}
    {p : Particle α} (hl : store[l]? = some p) : s.store[l]? = some (c.after u n mesh p) := by
  rw [h.store, Array.getElem?_map, hl]
  rfl

/-- What ranks find together is determined by the tick, the mesh step and their particles. -/
theorem Agreed.eq {c' : Course α} {store : Ranks m (Store α)} (h : c'.Agreed u n mesh store)
    (hn : c'.next = c.next) (hi : c'.instant = c.instant) (hm : c'.most = c.most)
    (hequal : u.config.step.equalSteps → ∃ l, c.least? = some l ∧ IsLeast (c.Steps u n store) l)
    (hown : ¬ u.config.step.equalSteps → c.least? = none) : c' = c := by
  obtain ⟨next, instant, most, least?⟩ := c
  obtain ⟨next', instant', most', least?'⟩ := c'
  obtain rfl : next' = next := hn
  obtain rfl : instant' = instant := hi
  obtain rfl : most' = most := hm
  by_cases he : u.config.step.equalSteps
  · obtain ⟨l, rfl, hl⟩ := hequal he
    obtain ⟨l', rfl, -, hl'⟩ := h.equal he
    rw [hl'.unique hl]
  · obtain rfl := hown he
    obtain rfl := h.own he
    rfl

theorem Agreed.want_le_wish {store : Ranks m (Store α)} (h : c.Agreed u n mesh store)
    {i : Fin (m + 1)} {p : Particle α} (hp : p ∈ store i) (hd : c.isDue n p) :
    c.want u p ≤ (c.wish u p).ticks := by
  by_cases he : u.config.step.equalSteps
  · obtain ⟨l, hl, -, hleast⟩ := h.equal he
    rw [want, hl]
    exact hleast.2 (.inr ⟨i, p, hp, hd, rfl⟩)
  · rw [want, h.own he]
    exact Int.le_refl _

/-- Without faults no due particle has one. -/
theorem not_isFault_of_faults {store : Ranks m (Store α)} (h : c.faults u n store = 0)
    {i : Fin (m + 1)} {p : Particle α} (hp : p ∈ store i) (hd : c.isDue n p) :
    ¬ (c.wish u p).isFault ∧ 1 < TickCount.roundDown (c.want u p) := by
  have hzero := Ranks.eq_zero_of_total (fun i => Int.natCast_nonneg _) h i
  have hcount := Array.countP_eq_zero.1 (Int.ofNat_eq_zero.1 hzero) p hp
  simp only [hd, Bool.true_and, isFault, Assign.isFault, Bool.or_eq_true, decide_eq_true_eq,
    not_or] at hcount
  exact ⟨hcount.1, Int.not_le.1 hcount.2⟩

theorem Meshed.unique {c' : Course α} {store : Ranks m (Store α)} (h : c.Meshed u mesh store)
    (h' : c'.Meshed u mesh store) (hn : c'.next = c.next) (hi : c'.instant = c.instant) :
    c'.most = c.most := by
  have ha : c'.atMesh u mesh = c.atMesh u mesh := by rw [atMesh, atMesh, hn]
  by_cases hm : c.atMesh u mesh
  · have hr' := h'.renewed (ha.trans hm)
    rw [hn, hi] at hr'
    exact Except.ok.inj (hr'.symm.trans (h.renewed hm))
  · exact (h'.kept (by rwa [ha])).trans (h.kept hm).symm

theorem Agreed.unique {c' : Course α} {store : Ranks m (Store α)} (h : c.Agreed u n mesh store)
    (h' : c'.Agreed u n mesh store) (hn : c'.next = c.next) (hi : c'.instant = c.instant) :
    c' = c := by
  refine h'.eq hn hi (h.toMeshed.unique h'.toMeshed hn hi) (fun he => ?_) h.own
  obtain ⟨l, hl, -, hleast⟩ := h.equal he
  exact ⟨l, hl, hleast⟩

end Course

end BlockStep
