import BlockStep.Proofs.Cycle

namespace BlockStep

variable {α : Type} [Scalar α] {m n : Nat}

/-- The computation of forces on one rank, if there is any. -/
def Forces.act (forces : Option (Forces α)) (k : Nat) (active : List Nat) (tick : Tick) :
    Act α (Store α) Unit :=
  match forces with
  | none => pure ()
  | some f => f k active tick

/-- Called together, the forces of all ranks leave kinds, bins and starts of steps alone, unless
some rank fails. -/
def Forces.KeepSchedule (forces : Ranks m (Option (Forces α))) : Prop :=
  ∀ (k : Ranks m Nat) (active : Ranks m (List Nat)) (tick : Tick) (store : Ranks m (Store α)),
    Joint (fun _ => True) (fun _ => True)
      (fun i => Forces.act (forces i) (k i) (active i) tick) store
      fun _ store' => ∀ i, (store' i).slots = (store i).slots

theorem Forces.keepSchedule_of_ends {forces : Ranks m (Option (Forces α))}
    (h : ∀ i k active tick store, (Forces.act (forces i) k active tick).Ends (fun _ => True) store
      fun _ store' => store'.slots = store.slots) : Forces.KeepSchedule forces :=
  fun k active tick store => Joint.of_ends (fun i => h i (k i) (active i) tick (store i))
    fun _ _ h => h

theorem Forces.keepSchedule_none :
    Forces.KeepSchedule fun _ : Fin (m + 1) => (none : Option (Forces α)) :=
  Forces.keepSchedule_of_ends fun _ _ _ _ _ => Act.ends_pure.2 rfl

/-- The forces of a rank leave its particles as they are. -/
def Forces.Frozen (forces : Option (Forces α)) : Prop :=
  ∀ k active tick store, (Forces.act forces k active tick).Ends (fun _ => False) store
    fun _ store' => store' = store

omit [Scalar α] in
theorem Forces.frozen_none : Forces.Frozen (none : Option (Forces α)) :=
  fun _ _ _ _ => Act.ends_pure.2 rfl

namespace Glass

theorem joint_make (c : CosmologyConfig α) (s : Ranks m (Store α)) :
    Joint (fun _ => True) (fun _ => True) (fun _ => make c) s
      fun _ s' => ∀ i, (s' i).slots = (s i).slots := by
  simp only [make]
  refine Joint.bind (Joint.of_ends (R := fun i _ t => t.slots = (s i).slots)
    (fun i => Act.ends_modify.2 (Store.slots_map reversed (fun _ => rfl) (s i))) fun _ _ h => h) ?_
  intro _ s₁ h₁
  refine Joint.bind (Joint.of_ends (R := fun i _ t => t.slots = (s i).slots)
    (fun i => Act.ends_lift (fun _ _ => h₁ i) fun _ _ => trivial) fun _ _ h => h) ?_
  intro toLength s₂ h₂
  refine Joint.bind (Joint.of_ends (R := fun i _ t => t.slots = (s i).slots)
    (fun i => Act.ends_get.2 (h₂ i)) fun _ _ h => h) ?_
  intro st s₃ h₃
  refine Joint.bind (Joint.reduce (Q := fun _ s' => ∀ i, (s' i).slots = (s i).slots) h₃) ?_
  intro all s₄ h₄
  refine Joint.of_ends (R := fun i _ t => t.slots = (s i).slots) (fun i => ?_) fun _ _ h => h
  refine Act.ends_bind.2 (Act.ends_get.2 (Act.ends_bind.2 (Act.ends_lift (fun critical _ => ?_)
    fun _ _ => trivial)))
  refine Act.ends_bind.2 (Act.ends_lift (fun ratio _ => ?_) fun _ _ => trivial)
  have hmoved (x : α) : Store.slots ((s₄ i).map (moved x (toLength i))) = (s i).slots :=
    (Store.slots_map (moved x (toLength i)) (fun _ => rfl) (s₄ i)).trans (h₄ i)
  split
  · exact Act.ends_bind.2 (Act.ends_tell.2 (Act.ends_bind.2 (Act.ends_modify.2
      (Act.ends_pure.2 (hmoved _)))))
  · split
    · exact Act.ends_bind.2 (Act.ends_fail.2 trivial)
    · exact Act.ends_bind.2 (Act.ends_modify.2 (Act.ends_pure.2 (hmoved _)))

end Glass

namespace Stepper

theorem joint_relax {u : Setup α} {w : Ranks m (Option SnapshotWriter)}
    (s : Ranks m (Stepper α n)) :
    Joint (fun _ => True) (fun _ => True) (fun i => relax { u with writer := w i }) s
      fun _ s' => ∀ i, ∃ st : Store α, s' i = { s i with store := st } ∧
        st.slots = (s i).store.slots := by
  simp only [relax]
  split
  · refine Joint.bind (Joint.within (Q := fun _ s' => ∀ i, ∃ st : Store α,
      s' i = { s i with store := st } ∧ st.slots = (s i).store.slots)
      ((Glass.joint_make u.config.cosmology _).mono fun _ st h i => ⟨st i, rfl, h i⟩)) ?_
    intro _ s' h
    exact Joint.pure h
  · exact Joint.pure fun i => ⟨(s i).store, rfl, rfl⟩

def seenWith (forces : Option (Forces α)) (tick : Tick) (s : Stepper α n) :
    List (List Nat × Tick) :=
  if forces.isSome then s.seen ++ [(s.active, tick)] else s.seen

omit [Scalar α] in
theorem callForces_eq (forces : Option (Forces α)) (tick : Tick) : callForces forces tick = (do
    let s ← Act.get
    Act.set { s with seen := seenWith forces tick s }
    onStore (Forces.act forces s.seen.length s.active tick) : Step α n Unit) := by
  cases forces with
  | none => rfl
  | some f => rfl

theorem joint_callForces {forces : Ranks m (Option (Forces α))} (h : Forces.KeepSchedule forces)
    (tick : Tick) (s : Ranks m (Stepper α n)) :
    Joint (fun _ => True) (fun _ => True) (fun i => callForces (forces i) tick) s
      fun _ s' => ∀ i, ∃ (st : Store α) (seen : List (List Nat × Tick)),
        s' i = { s i with store := st, seen := seen } ∧ st.slots = (s i).store.slots := by
  simp only [callForces_eq]
  refine Joint.get_bind ?_
  refine Joint.set_bind ?_
  refine Joint.within ((h _ _ tick _).mono fun _ st hst i => ?_)
  exact ⟨st i, _, rfl, hst i⟩

theorem joint_prepare {u : Setup α} {w : Ranks m (Option SnapshotWriter)}
    {forces : Ranks m (Option (Forces α))} (hf : Forces.KeepSchedule forces) {next : Tick}
    {mesh : MeshStep} {s : Ranks m (Stepper α n)} (h : ∀ i, (s i).Ready u next mesh) :
    Joint (fun _ => True) (fun _ => True)
      (fun i => prepare { u with writer := w i } (forces i) next) s fun _ s' =>
        ∀ i, (s' i).Ready u next mesh ∧ (s' i).store.slots = (s i).store.slots := by
  simp only [prepare]
  refine Joint.modify_bind ?_
  refine Joint.bind (joint_callForces hf next _) ?_
  intro _ s₁ h₁
  refine Joint.get_bind (Joint.modify_bind ?_)
  refine Joint.bind (joint_relax _) ?_
  intro _ s₂ h₂
  refine Joint.pure fun i => ?_
  obtain ⟨st, seen, hs₁, hst⟩ := h₁ i
  obtain ⟨st', hs₂, hst'⟩ := h₂ i
  have hr := (h i).withStore (hst'.trans (by rw [hs₁]; exact hst))
  rw [hs₂, hs₁]
  exact ⟨hr.withRecords, hst'.trans (by rw [hs₁]; exact hst)⟩

/-- Ranks at one tick come to the next one, whatever the forces do beside the schedule. -/
theorem joint_lead {u : Setup α} {w : Ranks m (Option SnapshotWriter)}
    {forces : Ranks m (Option (Forces α))} (hf : Forces.KeepSchedule forces) {now next : Tick}
    {mesh : MeshStep} {s : Ranks m (Stepper α n)} (hnow : ∀ i, (s i).current = now)
    (hmesh : ∀ i, (s i).mesh = mesh) (htb : u.timebase ≠ 0)
    (hnext : next = Tick.ofAbsolute (Ranks.least fun i =>
      ((s i).registry.nextSync now u.timebase).toAbsolute u.timebase) u.timebase) :
    Joint (fun _ => True) (fun _ => True) (fun i => lead { u with writer := w i } (forces i)) s
      fun e t => now.toAbsolute u.timebase ≤ next.toAbsolute u.timebase ∧ (∀ i, (e i).1 = next) ∧
        ∀ i, (t i).Ready u next mesh ∧ (t i).store.slots = (s i).store.slots := by
  simp only [lead]
  refine Joint.bind (joint_synchronize hnow hmesh (fun _ => trivial) (fun _ _ => trivial)
    (fun _ _ _ _ => trivial) htb hnext) ?_
  intro r s₁ h₁
  have hr (i : Fin (m + 1)) : (r i).1 = next := (h₁ i).1
  simp only [hr]
  refine Joint.bind (joint_prepare hf fun i => (h₁ i).2.2.1) ?_
  intro active s₂ h₂
  refine Joint.pure ⟨(h₁ 0).2.1, fun _ => rfl, fun i => ⟨(h₂ i).1, ?_⟩⟩
  rw [← (h₁ i).2.2.2]
  exact (h₂ i).2

/-- With frozen forces and without a glass particles stay as they are. -/
theorem joint_prepare_frozen {A E : Fault → Prop} {u : Setup α}
    {w : Ranks m (Option SnapshotWriter)}
    {forces : Ranks m (Option (Forces α))} (hf : ∀ i, Forces.Frozen (forces i))
    (hg : u.config.features.makeGlass = false) {next : Tick} {mesh : MeshStep}
    {s : Ranks m (Stepper α n)} (h : ∀ i, (s i).Ready u next mesh) :
    Joint A E (fun i => prepare { u with writer := w i } (forces i) next) s fun _ s' =>
        ∀ i, (s' i).Ready u next mesh ∧ (s' i).store = (s i).store := by
  refine Joint.of_ends (R := fun i _ t => t.Ready u next mesh ∧ t.store = (s i).store) (fun i => ?_)
    fun _ _ h => h
  simp only [prepare, callForces_eq, relax, hg, Bool.false_eq_true, if_false, pure_bind,
    Act.ends_bind]
  refine ends_setPhase.2 (Act.ends_get.2 (Act.ends_set.2 (Act.ends_within.2 ?_)))
  refine (hf i _ _ _ _).mono ?_ fun _ he => he.elim
  rintro _ st rfl
  refine Act.ends_get.2 (ends_setPhase.2 (Act.ends_pure.2 ⟨?_, rfl⟩))
  exact (h i).withRecords

end Stepper

/-- A cycle can go to the tick of the course: it is the next due one and not behind, and there all
particles have places in the tables. -/
structure Course.Heads (u : Setup α) (now : Tick) (s : Ranks m (Stepper α n)) (c : Course α) :
    Prop where
  next : c.next = Tick.ofAbsolute
    (Ranks.least fun i => ((s i).registry.nextSync now u.timebase).toAbsolute u.timebase) u.timebase
  le : now.toAbsolute u.timebase ≤ c.next.toAbsolute u.timebase
  instant : u.config.instant (u.timeline.scaleFactor (c.next.toAbsolute u.timebase)) = .ok c.instant
  fits : ∀ i, ∀ p ∈ (s i).store, p.Fits n

/-- A cycle of all ranks, in which they have the particles `store` when new steps are taken. -/
structure Course.Leads (u : Setup α) (now : Tick) (mesh : MeshStep) (s : Ranks m (Stepper α n))
    (store : Ranks m (Store α)) (s' : Ranks m (Stepper α n)) (c : Course α) : Prop where
  heads : c.Heads u now s
  agreed : c.Agreed u n mesh store
  faultless : c.faults u n store = 0
  ran : ∀ i, c.Ran u mesh (store i) (s' i)

namespace Stepper

variable {u : Setup α} {now : Tick} {mesh : MeshStep} {s : Ranks m (Stepper α n)}

section Cycle

variable {A E : Fault → Prop} {w : Ranks m (Option SnapshotWriter)}
  {forces : Ranks m (Option (Forces α))} {K : Store α → Store α → Prop} (hn : 2 ≤ n)
  (htb : u.timebase ≠ 0) (hnow : ∀ i, (s i).current = now) (hmesh : ∀ i, (s i).mesh = mesh)
  (hK : ∀ st, K st st)
  (hprepare : ∀ next (t : Ranks m (Stepper α n)), (∀ i, (t i).Ready u next mesh) →
    Joint A E (fun i => prepare { u with writer := w i } (forces i) next) t fun _ t' =>
      ∀ i, (t' i).Ready u next mesh ∧ K (t i).store (t' i).store)
  (hA : ∀ (c : Course α) (st : Ranks m (Store α)), (∀ i, K (s i).store (st i)) → c.Heads u now s →
    c.Agreed u n mesh st → c.faults u n st ≠ 0 → A (.degenerateSteps (c.faults u n st)))
  (hE : ∀ e (st : Ranks m (Store α)), (∀ i, K (s i).store (st i)) → e.degenerate? = none →
    (¬ ∃ c : Course α, c.Heads u now s ∧ c.Agreed u n mesh st) → E e)

include hn htb hnow hmesh hK hprepare hA hE

theorem joint_turnover :
    Joint A E (fun i => turnover { u with writer := w i } (forces i)) s fun _ s' =>
      ∃ (c : Course α) (st : Ranks m (Store α)), (∀ i, K (s i).store (st i)) ∧
        c.Leads u now mesh s st s' := by
  generalize hnext : Tick.ofAbsolute (Ranks.least fun i =>
    ((s i).registry.nextSync now u.timebase).toAbsolute u.timebase) u.timebase = next
  simp only [turnover, lead, bind_assoc, pure_bind]
  have hlost {e : Fault} (he : e.degenerate? = none) (hno : ∀ c : Course α, c.next = next →
      ¬ c.Heads u now s) : E e := by
    refine hE e (fun i => (s i).store) (fun i => hK _) he ?_
    rintro ⟨c, hc, -⟩
    exact hno c (hc.next.trans hnext) hc
  refine Joint.bind (Joint.fold (joint_synchronize hnow hmesh ?_ ?_ ?_ htb hnext.symm)) ?_
  · intro hlt
    refine .inr (hlost rfl fun c hcn hc => ?_)
    rw [← hcn] at hlt
    exact absurd hc.le (Int.not_le.2 hlt)
  · intro e he
    refine .inr (hlost (Fault.degenerate?_of_isNumeric (Config.isNumeric_instant he))
      fun c hcn hc => ?_)
    rw [← hcn] at he
    cases he.symm.trans hc.instant
  · intro e i he hfits
    exact hlost (Fault.degenerate?_of_isPlain he) fun c _ hc => hfits (hc.fits i)
  intro r s₁ h₁
  have hr (i : Fin (m + 1)) : (r i).1 = next := (h₁ i).1
  simp only [hr]
  refine Joint.bind (hprepare next s₁ fun i => (h₁ i).2.2.1) ?_
  intro _ s₂ h₂
  have hi (i : Fin (m + 1)) : (s₂ i).instant = (s₂ 0).instant :=
    Except.ok.inj ((h₂ i).1.instant.symm.trans (h₂ 0).1.instant)
  have hst (i : Fin (m + 1)) : K (s i).store (s₂ i).store := by
    rw [← (h₁ i).2.2.2]
    exact (h₂ i).2
  have hheads (c : Course α) (hcn : c.next = next) (hci : c.instant = (s₂ 0).instant) :
      c.Heads u now s := by
    subst hcn
    refine ⟨hnext.symm, (h₁ 0).2.1, by rw [hci]; exact (h₂ 0).1.instant, fun i => ?_⟩
    rw [← (h₁ i).2.2.2]
    exact (h₁ i).2.2.1.fits
  refine Joint.bind (joint_proceed hn (fun i => (h₂ i).1) hi
    (fun c hcn hci hc hf => hA c _ hst (hheads c hcn hci) hc hf) fun e he hno => ?_) ?_
  · refine hE e _ hst he ?_
    rintro ⟨c, hc, ha⟩
    refine hno ⟨c, hc.next.trans hnext, ?_, ha⟩
    have h2 := (h₂ 0).1.instant
    rw [← hnext, ← hc.next] at h2
    exact Except.ok.inj (hc.instant.symm.trans h2)
  rintro _ s₃ ⟨c, rfl, hci, hagreed, hf, hs₃⟩
  exact Joint.pure ⟨c, _, hst, hheads c rfl hci, hagreed, hf, hs₃⟩

/-- Ranks that have something in common go through a cycle, where particles may change as `K` allows
before they take new steps. -/
theorem joint_runCycle (hphase : ∀ i, (s i).phase ≠ .aborted)
    (hend : now.toAbsolute u.timebase < u.timeline.endTick) :
    Joint A E (fun i => runCycle { u with writer := w i } (forces i)) s fun _ s' =>
      ∃ (c : Course α) (st : Ranks m (Store α)), (∀ i, K (s i).store (st i)) ∧
        c.Leads u now mesh s st s' := by
  simp only [runCycle_eq, openCycle]
  refine Joint.get_bind ?_
  have hgo (i : Fin (m + 1)) : ¬ isFinished { u with writer := w i } (s i) := by
    rw [isFinished, currentAbsolute, hnow i, decide_eq_true_eq]
    exact Int.not_le.2 hend
  simp only [if_neg (hphase _), if_neg (hgo _)]
  refine Joint.bind (Joint.onFault (joint_turnover hn htb hnow hmesh hK hprepare hA hE)) ?_
  rintro e s' ⟨c, st, hst, hc⟩
  refine Joint.get_bind (Joint.set_bind (Joint.pure ⟨c, st, hst, ?_⟩))
  refine ⟨hc.heads, hc.agreed, hc.faultless, fun i => ?_⟩
  have hran := hc.ran i
  exact ⟨hran.counts, hran.active, hran.store, hran.current, hran.mesh, hran.phase⟩

end Cycle

end Stepper

end BlockStep
