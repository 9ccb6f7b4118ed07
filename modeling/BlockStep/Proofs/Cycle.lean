import BlockStep.Proofs.Allotment

namespace BlockStep.Stepper

variable {α : Type} [Scalar α] {m n : Nat}

variable {u : Setup α} {s : Ranks m (Stepper α n)} {next : Tick} {mesh : MeshStep}
  {instant : Instant α}

omit [Scalar α] in
theorem isActive_of_marked {r : Registry n} {c : Course α}
    (h : r.active = Registry.dueMask n c.next.localTick) : r.isActive = c.isActive n := by
  funext b
  rw [Registry.isActive, h]
  rfl

omit [Scalar α] in
theorem isDue_of_marked {r : Registry n} {c : Course α}
    (h : r.active = Registry.dueMask n c.next.localTick) : r.isDue = c.isDue n := by
  funext p
  rw [Registry.isDue, isActive_of_marked h]
  rfl

/-- The course of ranks from a tick on, with a mesh step. -/
def courseOf (u : Setup α) (next : Tick) (instant : Instant α) (most : Int)
    (s : Ranks m (Stepper α n)) : Course α := ⟨next, instant, most, commonWish u s most⟩

section Stages

variable {A E : Fault → Prop} {c : Course α} (h : ∀ i, (s i).Ready u c.next mesh)
  (hi : ∀ i, (s i).instant = c.instant)

include h

theorem mem_activeParticles_iff {i : Fin (m + 1)} {p : Particle α} :
    p ∈ (s i).activeParticles ↔ p ∈ (s i).store ∧ c.isDue n p := by
  rw [(h i).mem_activeParticles, isDue_of_marked (h i).marked]

include hi

theorem wish_eq (i : Fin (m + 1)) : (s i).wish u c.most = c.wish u := by
  funext p
  rw [wish, hi i, (h i).current]
  rfl

theorem isMeasured_eq (i : Fin (m + 1)) : (s i).IsMeasured u c.most =
    Criterion.IsMeasured u.config u.timeline c.instant c.most c.next.epoch := by
  funext p
  rw [IsMeasured, hi i, (h i).current]

theorem isLeast_steps : IsLeast (c.Steps u n fun i => (s i).store) (leastWish u s c.most) := by
  have hmem (i : Fin (m + 1)) (t : Int) :
      t ∈ ((s i).activeParticles.map fun p => ((s i).wish u c.most p).ticks) ↔
        ∃ p ∈ (s i).store, c.isDue n p ∧ t = (c.wish u p).ticks := by
    simp only [List.mem_map, mem_activeParticles_iff h, wish_eq h hi, and_assoc, eq_comm]
  have hleast := Ranks.isLeast_least fun i => Registry.isLeast_foldl_min
    ((s i).activeParticles.map fun p => ((s i).wish u c.most p).ticks) Assign.leastSeed
  have hset : {t | ∃ i, t ∈ {t | t = Assign.leastSeed ∨
      t ∈ (s i).activeParticles.map fun p => ((s i).wish u c.most p).ticks}} =
        c.Steps u n fun i => (s i).store := by
    ext t
    simp only [Set.mem_ofPred_eq, hmem, exists_or, exists_const]
    rfl
  rw [hset] at hleast
  exact hleast

theorem turns_allotted_eq (i : Fin (m + 1)) :
    (s i).turns ((s i).allotted u c.most c.least?).placed = (s i).turnsOf fun p =>
      Assign.place n (s i).registry.isActive (c.want u p) p.bin := by
  rw [turns_allotted, wish_eq h hi]
  rfl

theorem faultCount_allotted_eq (i : Fin (m + 1)) :
    ((s i).allotted u c.most c.least?).faultCount =
      (s i).store.countP fun p => c.isDue n p && c.isFault u p := by
  rw [(h i).faultCount_allotted, wish_eq h hi, isDue_of_marked (h i).marked]
  rfl

theorem joint_turnAll {w : Ranks m (Option SnapshotWriter)} (hn : 2 ≤ n)
    (hE : ∀ e i, e.isGap → ¬ (u.kicker.isChecked → ∀ p ∈ (s i).store, c.isDue n p →
      p.kickTick = p.midpoint) → E e) :
    Joint A E (fun i => turnAll { u with writer := w i } true (s i)
      ((s i).turns ((s i).allotted u c.most c.least?).placed)) s fun _ s' =>
      (u.kicker.isChecked → ∀ i, ∀ p ∈ (s i).store, c.isDue n p → p.kickTick = p.midpoint) ∧
        ∀ i, c.Turned u mesh (s i).store (s' i) := by
  simp only [turns_allotted_eq h hi]
  refine Joint.of_ends (fun i => (ends_turnAll ((h i).withWriter (w i)) hn true (c.want u)).mono
    (fun _ _ hR => hR) ?_) ?_
  · rintro e ⟨he, hgap⟩
    rw [isDue_of_marked (h i).marked] at hgap
    exact hE e i he hgap
  · intro moved s' hR
    constructor
    · intro hk i p hp hd
      rw [← isDue_of_marked (h i).marked] at hd
      exact (hR i).1 hk p hp hd
    · intro i
      obtain ⟨-, r, hs', hc, -⟩ := hR i
      have hlists := (h i).lists
      rw [isDue_of_marked (h i).marked] at hlists
      rw [hs'] at hc ⊢
      refine ⟨hc, hlists, ?_, (h i).current, (h i).mesh⟩
      simp only [turned, isDue_of_marked (h i).marked, isActive_of_marked (h i).marked, hi i]
      rfl

end Stages

/-- Without faults all ranks end the cycle, and else they fail alike. -/
theorem joint_conclude {A E : Fault → Prop} {w : Ranks m (Option SnapshotWriter)} {c : Course α}
    {store : Ranks m (Store α)} (h : ∀ i, c.Turned u mesh (store i) (s i))
    (hstep : c.atMesh u mesh → TickCount.IsStep c.most) {all : Int}
    (hA : all ≠ 0 → A (.degenerateSteps all)) (moved : Ranks m Nat) :
    Joint A E (fun i => do
        conclude { u with writer := w i } true (c.atMesh u mesh) c.most
          (c.next.toAbsolute u.timebase) all
        pure (moved i)) s fun _ s' =>
      all = 0 ∧ ∀ i, c.Ran u mesh (store i) (s' i) := by
  by_cases hall : all = 0
  · refine Joint.of_ends (R := fun i _ t => c.Ran u mesh (store i) t) (fun i => ?_)
      fun _ t ht => ⟨hall, ht⟩
    have hi := h i
    rw [hall]
    refine Act.ends_bind.2 ((ends_conclude fun ha => ?_).mono ?_ fun _ he => he)
    · rw [hi.mesh]
      exact ⟨hstep ha, beq_iff_eq.1 ha⟩
    rintro _ t rfl
    refine Act.ends_pure.2 ⟨hi.counts.of_slots (slots_concluded ..), hi.active, ?_, hi.current, ?_,
      rfl⟩
    · show (if c.atMesh u mesh then _ else _) = _
      rw [hi.mesh, hi.store]
      unfold Course.after
      cases c.atMesh u mesh with
      | true =>
        rw [if_pos rfl, Array.map_map]
        rfl
      | false => rfl
    · show (if c.atMesh u mesh then _ else _) = _
      rw [hi.mesh, Course.meshAfter]
  · refine Joint.of_error (fun i => ?_) (hA hall)
    exact Act.ends_bind.2 (ends_conclude_of_ne (E := (· = _)) hall rfl)

/-- Ranks that know the mesh step go through their course, or fail where it is not agreed. -/
theorem joint_allot_carryOut {A E : Fault → Prop} {w : Ranks m (Option SnapshotWriter)}
    {c : Course α} (hn : 2 ≤ n) (h : ∀ i, (s i).Ready u c.next mesh)
    (hi : ∀ i, (s i).instant = c.instant) (hmesh : c.Meshed u mesh fun i => (s i).store)
    (hleast? : c.least? = commonWish u s c.most)
    (hA : c.Agreed u n mesh (fun i => (s i).store) → c.faults u n (fun i => (s i).store) ≠ 0 →
      A (.degenerateSteps (c.faults u n fun i => (s i).store)))
    (hword : u.config.step.equalSteps → ¬ Word.Holds (leastWish u s c.most) → A .wordOverflow)
    (hmeasured : ∀ e i, e.isNumeric → (∃ p ∈ (s i).store, c.isDue n p ∧
      ¬ Criterion.IsMeasured u.config u.timeline c.instant c.most c.next.epoch p) → E e)
    (haccepted : ∀ e i, e.degenerate? = none → (∃ p ∈ (s i).store, c.isDue n p ∧
      ¬ IsAccepted u.kicker (c.want u) p) → E e) :
    Joint A E (fun i => do
        let a ← allot { u with writer := w i } (s i) c.most
        carryOut { u with writer := w i } true (s i) a) s fun _ s' =>
      c.Agreed u n mesh (fun i => (s i).store) ∧ c.faults u n (fun i => (s i).store) = 0 ∧
        ∀ i, c.Ran u mesh (s i).store (s' i) := by
  have hwant (i : Fin (m + 1)) (p : Particle α) :
      (commonWish u s c.most).getD ((s i).wish u c.most p).ticks = c.want u p := by
    rw [← hleast?, wish_eq h hi]
    rfl
  simp only [carryOut, sumUp_bind]
  refine Joint.bind (joint_allot hword ?_ ?_) ?_
  · rintro e i he ⟨p, hp, hno⟩
    obtain ⟨hstore, hd⟩ := (mem_activeParticles_iff h).1 hp
    rw [isMeasured_eq h hi] at hno
    exact hmeasured e i he ⟨p, hstore, hd, hno⟩
  · rintro ⟨i, p, hp, hneg⟩
    obtain ⟨hstore, hd⟩ := (mem_activeParticles_iff h).1 hp
    rw [hwant] at hneg
    exact haccepted _ i rfl ⟨p, hstore, hd, fun ha => Int.not_le.2 hneg ha.1⟩
  rintro _ t ⟨ht, rfl, hholds, hm, hpos⟩
  rw [ht, ← hleast?]
  refine Joint.bind (joint_turnAll h hi hn fun e i he hgap => ?_) ?_
  · simp only [Classical.not_imp, not_forall] at hgap
    obtain ⟨hk, p, hp, hd, hne⟩ := hgap
    exact haccepted e i (Fault.degenerate?_of_isGap he) ⟨p, hp, hd, fun ha => hne (ha.2 hk)⟩
  rintro moved t ⟨hkick, hturned⟩
  have hagreed : c.Agreed u n mesh fun i => (s i).store := by
    refine ⟨hmesh, fun he => ⟨_, hleast?.trans (if_pos he), hholds he, isLeast_steps h hi⟩,
      fun he => hleast?.trans (if_neg he), fun i p hp hd => ?_, fun i p hp hd => ⟨?_, ?_⟩⟩
    · have hmeasured := hm i p ((mem_activeParticles_iff h).2 ⟨hp, hd⟩)
      rwa [isMeasured_eq h hi] at hmeasured
    · have hnonneg := hpos i p ((mem_activeParticles_iff h).2 ⟨hp, hd⟩)
      rwa [hwant] at hnonneg
    · exact fun hk => hkick hk i p hp hd
  -- the faults are summed over the ranks, so that either all of them fail or none does
  refine Joint.bind (Joint.faultCount (Q := fun v t' => t' = t ∧ v = fun _ =>
    c.faults u n fun i => (s i).store) ⟨rfl, ?_⟩) ?_
  · simp only [faultCount_allotted_eq h hi]
    rfl
  rintro v t' ⟨ht', hv⟩
  rw [ht', hv]
  have hcond (i : Fin (m + 1)) : currentAbsolute { u with writer := w i } (s i) =
      c.next.toAbsolute u.timebase := by
    rw [currentAbsolute, (h i).current]
    rfl
  simp only [hcond, (h _).mesh]
  refine (joint_conclude hturned (fun ha => MeshStep.isStep_of_ticksOf (hmesh.renewed ha))
    (hA hagreed) moved).mono ?_
  rintro _ s' ⟨hzero, hran⟩
  exact ⟨hagreed, hzero, hran⟩

theorem eq_courseOf {c : Course α} {most : Int} (h : ∀ i, (s i).Ready u c.next mesh)
    (hi : ∀ i, (s i).instant = c.instant) (hc : c.Agreed u n mesh fun i => (s i).store)
    (hmesh : (courseOf u c.next c.instant most s).Meshed u mesh fun i => (s i).store) :
    c = courseOf u c.next c.instant most s := by
  refine hc.eq rfl rfl (hmesh.unique hc.toMeshed rfl rfl) (fun he => ⟨_, if_pos he, ?_⟩)
    fun he => if_neg he
  exact isLeast_steps (c := courseOf u c.next c.instant most s) h hi

/-- Ranks that are ready go through a course, or fail where there is none. -/
theorem joint_proceed {A E : Fault → Prop} {w : Ranks m (Option SnapshotWriter)} (hn : 2 ≤ n)
    (h : ∀ i, (s i).Ready u next mesh) (hi : ∀ i, (s i).instant = instant)
    (hA : ∀ c : Course α, c.next = next → c.instant = instant →
      c.Agreed u n mesh (fun i => (s i).store) → c.faults u n (fun i => (s i).store) ≠ 0 →
        A (.degenerateSteps (c.faults u n fun i => (s i).store)))
    (hE : ∀ e, e.degenerate? = none → (¬ ∃ c : Course α, c.next = next ∧ c.instant = instant ∧
      c.Agreed u n mesh fun i => (s i).store) → E e) :
    Joint A E (fun i => proceed { u with writer := w i } true) s fun _ s' => ∃ c : Course α,
      c.next = next ∧ c.instant = instant ∧ c.Agreed u n mesh (fun i => (s i).store) ∧
      c.faults u n (fun i => (s i).store) = 0 ∧ ∀ i, c.Ran u mesh (s i).store (s' i) := by
  refine Joint.fold ?_
  simp only [proceed, choose, bind_assoc]
  refine Joint.get_bind (Joint.bind (joint_meshTicks h hi ?_) ?_)
  · intro e hm he
    refine .inr (hE e (Fault.degenerate?_of_isNumeric (MeshStep.isNumeric_ticksOf he)) ?_)
    rintro ⟨c, rfl, rfl, hc⟩
    cases he.symm.trans (hc.renewed (beq_iff_eq.2 hm))
  rintro ticks t ⟨ht, most, hticks, hnew, hold⟩
  rw [ht, funext hticks]
  have hmesh : (courseOf u next instant most s).Meshed u mesh fun i => (s i).store :=
    ⟨fun ha => hnew (beq_iff_eq.1 ha), fun ha => hold fun he => ha (beq_iff_eq.2 he)⟩
  have hlost {e : Fault} (he : e.degenerate? = none)
      (hno : ¬ (courseOf u next instant most s).Agreed u n mesh fun i => (s i).store) : E e := by
    refine hE e he ?_
    rintro ⟨c, rfl, rfl, hc⟩
    rw [← eq_courseOf h hi hc hmesh] at hno
    exact hno hc
  refine (joint_allot_carryOut (c := courseOf u next instant most s) hn h hi hmesh rfl
    ?_ ?_ ?_ ?_).mono ?_
  · exact fun hc hf => .inl (hA _ rfl rfl hc hf)
  · intro he hw
    refine .inr (hlost rfl fun hc => hw ?_)
    obtain ⟨l, hl, hword, -⟩ := hc.equal he
    rw [show (courseOf u next instant most s).least? = _ from if_pos he] at hl
    cases hl
    exact hword
  · rintro e i he ⟨p, hp, hd, hm⟩
    exact hlost (Fault.degenerate?_of_isNumeric he)
      fun hc => hm (hc.measured i p hp hd)
  · rintro e i he ⟨p, hp, hd, hm⟩
    exact hlost he fun hc => hm (hc.accepted i p hp hd)
  · rintro _ s' ⟨hagreed, hzero, hran⟩
    exact ⟨_, rfl, rfl, hagreed, hzero, hran⟩

theorem joint_advance {A E : Fault → Prop} {w : Ranks m (Option SnapshotWriter)} {toMiddle : Bool}
    {Q : Ranks m Nat → Ranks m (Stepper α n) → Prop} (hg : u.config.features.makeGlass = false)
    (h : Joint A E (fun i => proceed { u with writer := w i } toMiddle)
      (fun i => { s i with phase := .assign }) Q) :
    Joint A E (fun i => advance { u with writer := w i } toMiddle) s Q := by
  simp only [advance_eq, relax, hg, Bool.false_eq_true, if_false, pure_bind]
  exact Joint.modify_bind h

end BlockStep.Stepper
