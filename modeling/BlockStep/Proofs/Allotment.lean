import BlockStep.Proofs.Always
import BlockStep.Proofs.Course

namespace BlockStep

variable {α : Type} [Scalar α] {m n : Nat}

theorem Reduction.le_of_answers {v w : Int} (h : Reduction.leastTick.Answers (α := α) v w) :
    w ≤ v := by
  obtain ⟨m, vs, i, rfl, rfl⟩ := h
  exact Ranks.least_le vs i

namespace Stepper

section Allotted

variable (u : Setup α) (s : Stepper α n) (most : Int)

/-- The step that a particle of a rank asks for. -/
def wish (p : Particle α) : DesiredStep α :=
  Criterion.wish u.config u.timeline s.instant most s.current.epoch p

def IsMeasured (p : Particle α) : Prop :=
  Criterion.IsMeasured u.config u.timeline s.instant most s.current.epoch p

/-- What active particles are given where `least?` is the step that all take, if they take one. -/
def allotted (least? : Option Int) : Allotment α where
  most := most
  wishes := s.activeParticles.map (s.wish u most)
  ticks := s.activeParticles.map fun p => least?.getD (s.wish u most p).ticks
  placed := s.activeParticles.map fun p =>
    Assign.place n s.registry.isActive (least?.getD (s.wish u most p).ticks) p.bin

variable {u s most}

theorem turns_allotted (least? : Option Int) : s.turns (s.allotted u most least?).placed =
    s.turnsOf fun p =>
      Assign.place n s.registry.isActive (least?.getD (s.wish u most p).ticks) p.bin :=
  turns_eq s _

theorem faults_allotted (least? : Option Int) : (s.allotted u most least?).faults =
    s.activeParticles.map fun p => (s.wish u most p).isFault ||
      Assign.isFault (TickCount.roundDown (least?.getD (s.wish u most p).ticks)) := by
  rw [Allotment.faults, allotted, List.zipWith_map, List.zipWith_self]

theorem Ready.faultCount_allotted {next : Tick} {mesh : MeshStep} (h : s.Ready u next mesh)
    (least? : Option Int) : (s.allotted u most least?).faultCount = s.store.countP fun p =>
      s.registry.isDue p && ((s.wish u most p).isFault ||
        Assign.isFault (TickCount.roundDown (least?.getD (s.wish u most p).ticks))) := by
  rw [Allotment.faultCount, faults_allotted, List.countP_map]
  exact h.lists.countP _

end Allotted

end Stepper

namespace Allotment

/-- An allotment for a rank that is ready: equal or not, no particle gets more than it asks for, and
the mesh step in force is a new one where the old one ends. -/
structure IsFor (u : Setup α) (s : Stepper α n) (a : Allotment α) : Prop where
  shared : ∃ least?, a = s.allotted u a.most least? ∧ (¬ u.config.step.equalSteps → least? = none) ∧
    ∀ p ∈ s.activeParticles,
      least?.getD (s.wish u a.most p).ticks ≤ (s.wish u a.most p).ticks
  renewed : s.currentAbsolute u = s.mesh.stop → ∃ stats,
    MeshStep.ticksOf u.config u.timeline s.instant.factors stats s.current.epoch = .ok a.most
  kept : s.currentAbsolute u ≠ s.mesh.stop → a.most = s.mesh.step

variable {u : Setup α} {s : Stepper α n} {a : Allotment α}

theorem IsFor.exists_turns (h : a.IsFor u s) : ∃ W : Particle α → Int,
    s.turns a.placed = s.turnsOf fun p => Assign.place n s.registry.isActive (W p) p.bin := by
  obtain ⟨least?, ha, -⟩ := h.shared
  rw [ha, Stepper.turns_allotted]
  exact ⟨_, rfl⟩

end Allotment

namespace Stepper

section One

variable {u : Setup α} {s : Stepper α n} {next : Tick} {mesh : MeshStep} {most : Int}

theorem always_meshTicks (h : s.Ready u next mesh) :
    (meshTicks u s).Always (fun e _ => e.isNumeric) s fun ticks s' => s' = s ∧
      (currentAbsolute u s = s.mesh.stop → ∃ stats, MeshStep.ticksOf u.config u.timeline
        s.instant.factors stats s.current.epoch = .ok ticks) ∧
      (currentAbsolute u s ≠ s.mesh.stop → ticks = s.mesh.step) := by
  rw [meshTicks]
  split
  next ha =>
    rw [MeshStep.next_eq fun p hp => (h.fits p hp).2.2]
    refine Act.always_bind.2 (Act.always_reduce.2 fun sums _ => ?_)
    refine Act.always_bind.2 (Act.always_reduce.2 fun counts _ => ?_)
    refine Act.always_bind.2 (Act.always_reduce.2 fun leasts _ => ?_)
    refine ((MeshStep.yields_nextOf _ _).ends (fun ticks ht => ?_)
      fun e he => MeshStep.isNumeric_ticksOf he).always
    exact ⟨rfl, fun _ => ⟨_, ht⟩, fun hne => absurd (beq_iff_eq.1 ha) hne⟩
  next ha => exact Act.always_pure.2 ⟨rfl, fun he => absurd (beq_iff_eq.2 he) ha, fun _ => rfl⟩

theorem always_commonSteps (ps : List (Particle α)) (D : Particle α → DesiredStep α) :
    (commonSteps u (ps.map D)).Always (fun e _ => e = .wordOverflow) s fun own s' => s' = s ∧
      ∃ least? : Option Int, own = (ps.map fun p => least?.getD (D p).ticks) ∧
        (¬ u.config.step.equalSteps → least? = none) ∧
        ∀ p ∈ ps, least?.getD (D p).ticks ≤ (D p).ticks := by
  rw [commonSteps]
  split
  next he =>
    rw [Assign.equalStep]
    refine Act.always_bind.2 (Act.always_reduce.2 fun least hleast => ?_)
    split
    · exact Act.always_bind.2 (Act.always_fail.2 rfl)
    · refine Act.always_pure.2 ⟨rfl, some least, List.map_map, fun hne => absurd he hne,
        fun p hp => ?_⟩
      have hmin := (Registry.isLeast_foldl_min ((ps.map D).map (·.ticks)) Assign.leastSeed).2
        (.inr (List.mem_map_of_mem (List.mem_map_of_mem hp)))
      exact Int.le_trans (Reduction.le_of_answers hleast) hmin
  · exact Act.always_pure.2 ⟨rfl, none, List.map_map, fun _ => rfl, fun p _ => Int.le_refl _⟩

theorem ends_place {σ : Type} (s : Stepper α n) (W : Particle α → Int) (t : σ) :
    (Assign.placeList n s.registry.active.toList (s.activeParticles.map W)
      ((s.activeParticles.map W).zip (s.activeParticles.map (·.bin))) : Act α σ _).Ends
      (fun e => e = .negativeTicks ∧ ∃ p ∈ s.activeParticles, W p < 0) t
      fun placed t' => t' = t ∧ (∀ p ∈ s.activeParticles, 0 ≤ W p) ∧ placed =
        s.activeParticles.map fun p => Assign.place n s.registry.isActive (W p) p.bin := by
  rw [List.zip_map']
  apply (Assign.ends_placeList s.registry.active.length_toList _ W t).mono ?_ fun _ he => he
  rintro placed t' ⟨rfl, hpos, ht⟩
  rw [isActive_eq]
  exact ⟨ht, hpos, rfl⟩

theorem always_choose (h : s.Ready u next mesh) :
    (choose u s).Always (fun e _ => e.IsChoice) s
      fun a t => t = s ∧ a.IsFor u s := by
  rw [choose]
  apply Act.always_bind.2
  apply (always_meshTicks h).mono ?_ fun _ _ he => .inl he
  rintro most t ⟨ht, hnew, hold⟩
  rw [ht, allot]
  apply Act.always_bind.2
  apply (Criterion.ends_desired _ _).always.mono ?_ fun _ _ he => .inl he.1
  rintro _ t ⟨rfl, -, ht⟩
  rw [ht]
  apply Act.always_bind.2
  apply (always_commonSteps _ _).mono ?_ fun _ _ he => .inr (.inl he)
  rintro _ t ⟨ht, least?, rfl, hown, hle⟩
  rw [ht]
  apply Act.always_bind.2
  apply (ends_place s _ s).always.mono ?_ fun _ _ he => .inr (.inr he.1)
  rintro _ t ⟨ht, -, rfl⟩
  exact Act.always_pure.2 ⟨ht, ⟨least?, rfl, hown, hle⟩, hnew, hold⟩

/-- Particles that are placed by their own wishes. -/
theorem ends_allot (he : ¬ u.config.step.equalSteps) (h0 : ∀ p, 0 ≤ (s.wish u most p).ticks) :
    (allot u s most).Ends
      (fun e => e.isNumeric ∧ ∃ p ∈ s.activeParticles, ¬ s.IsMeasured u most p) s
      fun a s' => s' = s ∧ a = s.allotted u most none := by
  rw [allot, Act.ends_bind]
  apply (Criterion.ends_desired s.activeParticles s).mono ?_ fun _ he => he
  rintro _ t ⟨rfl, -, ht⟩
  rw [ht, commonSteps, if_neg he, Act.ends_bind, Act.ends_pure, List.map_map, Act.ends_bind]
  apply (ends_place s _ s).mono
  · rintro _ t ⟨ht, -, rfl⟩
    exact Act.ends_pure.2 ⟨ht, rfl⟩
  · rintro e ⟨-, p, -, hneg⟩
    exact absurd (h0 p) (Int.not_le.2 hneg)

end One

/-- The least step that active particles of all ranks ask for. -/
def leastWish (u : Setup α) (s : Ranks m (Stepper α n)) (most : Int) : Int :=
  Ranks.least fun i =>
    ((s i).activeParticles.map fun p => ((s i).wish u most p).ticks).foldl min Assign.leastSeed

section Ranks

variable {u : Setup α} {s : Ranks m (Stepper α n)} {most : Int}

theorem leastWish_le {i : Fin (m + 1)} {p : Particle α} (hp : p ∈ (s i).activeParticles) :
    leastWish u s most ≤ ((s i).wish u most p).ticks :=
  (Ranks.least_le _ i).trans ((Registry.isLeast_foldl_min _ _).2 (.inr (List.mem_map_of_mem hp)))

theorem holds_leastWish (h0 : ∀ i p, 0 ≤ ((s i).wish u most p).ticks) :
    0 ≤ leastWish u s most ∧ Word.Holds (leastWish u s most) := by
  have hseed : leastWish u s most ≤ Assign.leastSeed :=
    (Ranks.least_le _ 0).trans ((Registry.isLeast_foldl_min _ _).2 (.inl rfl))
  have hnonneg : 0 ≤ leastWish u s most := by
    obtain ⟨i, hi⟩ := Ranks.exists_eq_least fun i =>
      ((s i).activeParticles.map fun p => ((s i).wish u most p).ticks).foldl min Assign.leastSeed
    rw [leastWish, hi]
    rcases (Registry.isLeast_foldl_min ((s i).activeParticles.map fun p =>
      ((s i).wish u most p).ticks) Assign.leastSeed).1 with hl | hl
    · rw [hl]
      decide
    · obtain ⟨p, -, hp⟩ := List.mem_map.1 hl
      rw [← hp]
      exact h0 i p
  exact ⟨hnonneg, Int.le_trans (by decide) hnonneg, hseed⟩

/-- The step that all active particles take, if they take one. -/
def commonWish (u : Setup α) (s : Ranks m (Stepper α n)) (most : Int) : Option Int :=
  if u.config.step.equalSteps then some (leastWish u s most) else none

theorem commonWish_getD (s : Ranks m (Stepper α n)) (d : DesiredStep α) :
    (commonWish u s most).getD d.ticks =
      if u.config.step.equalSteps then leastWish u s most else d.ticks := by
  rw [commonWish]
  split <;> rfl

theorem commonWish_le {i : Fin (m + 1)} {p : Particle α} (hp : p ∈ (s i).activeParticles) :
    (commonWish u s most).getD ((s i).wish u most p).ticks ≤ ((s i).wish u most p).ticks := by
  rw [commonWish_getD]
  split
  · exact leastWish_le hp
  · exact Int.le_refl _

theorem joint_meshTicks {A E : Fault → Prop} {u : Setup α} {w : Ranks m (Option SnapshotWriter)}
    {s : Ranks m (Stepper α n)} {next : Tick} {mesh : MeshStep} {instant : Instant α}
    (h : ∀ i, (s i).Ready u next mesh) (hi : ∀ i, (s i).instant = instant)
    (hA : ∀ e, next.toAbsolute u.timebase = mesh.stop → MeshStep.ticksOf u.config u.timeline
      instant.factors (.agreed fun i => .ofStore (s i).store) next.epoch = .error e → A e) :
    Joint A E (fun i => meshTicks { u with writer := w i } (s i)) s fun ticks s' => s' = s ∧
      ∃ most, (∀ i, ticks i = most) ∧ (next.toAbsolute u.timebase = mesh.stop →
        MeshStep.ticksOf u.config u.timeline instant.factors
          (.agreed fun i => .ofStore (s i).store) next.epoch = .ok most) ∧
        (next.toAbsolute u.timebase ≠ mesh.stop → most = mesh.step) := by
  have hcond (i : Fin (m + 1)) :
      (currentAbsolute { u with writer := w i } (s i) == (s i).mesh.stop) =
        (next.toAbsolute u.timebase == mesh.stop) := by
    rw [currentAbsolute, (h i).current, (h i).mesh]
    rfl
  simp only [meshTicks, hcond]
  by_cases hm : next.toAbsolute u.timebase == mesh.stop
  · simp only [if_pos hm, hi, fun i => (h i).current]
    refine (Joint.meshNext (fun i p hp => ((h i).fits p hp).2.2)
      fun e he => hA e (beq_iff_eq.1 hm) he).mono ?_
    rintro ticks s' ⟨hs, ht⟩
    exact ⟨hs, ticks 0, fun i => Except.ok.inj ((ht i).symm.trans (ht 0)), fun _ => ht 0,
      fun hne => absurd (beq_iff_eq.1 hm) hne⟩
  · simp only [if_neg hm]
    refine Joint.of_ends (R := fun i b t => t = s i ∧ b = mesh.step)
      (fun i => Act.ends_pure.2 ⟨rfl, by rw [(h i).mesh]⟩)
      fun b t h => ⟨funext fun i => (h i).1, mesh.step, fun i => (h i).2,
        fun he => absurd (beq_iff_eq.2 he) hm, fun _ => rfl⟩

theorem joint_commonSteps {A E : Fault → Prop} {u : Setup α} {w : Ranks m (Option SnapshotWriter)}
    {s : Ranks m (Stepper α n)} {ds : Ranks m (List (DesiredStep α))} {l : Int}
    (hl : l = Ranks.least fun i => ((ds i).map (·.ticks)).foldl min Assign.leastSeed)
    (hA : u.config.step.equalSteps → ¬ Word.Holds l → A .wordOverflow) :
    Joint A E (fun i => (commonSteps { u with writer := w i } (ds i) : Step α n _)) s fun own s' =>
      s' = s ∧ (u.config.step.equalSteps → Word.Holds l) ∧ ∀ i, own i = (ds i).map fun d =>
        if u.config.step.equalSteps then l else d.ticks := by
  simp only [commonSteps]
  by_cases he : u.config.step.equalSteps
  · simp only [if_pos he, Assign.equalStep]
    refine Joint.bind (Joint.leastTick (Q := fun v s' => s' = s ∧ v = fun _ => l) ⟨rfl, ?_⟩) ?_
    · rw [hl]
    rintro _ s' ⟨rfl, rfl⟩
    by_cases hw : Word.Holds l
    · simp only [if_neg (not_not.2 hw)]
      exact Joint.pure ⟨rfl, fun _ => hw, fun _ => rfl⟩
    · simp only [if_pos hw]
      exact Joint.of_error (fun _ => Act.ends_bind.2 (Act.ends_fail.2 rfl)) (hA he hw)
  · simp only [if_neg he]
    exact Joint.pure ⟨rfl, fun h => absurd h he, fun _ => rfl⟩

/-- Ranks allot steps together, or fail where particles cannot be asked or placed. -/
theorem joint_allot {A E : Fault → Prop} {w : Ranks m (Option SnapshotWriter)}
    (hword : u.config.step.equalSteps → ¬ Word.Holds (leastWish u s most) → A .wordOverflow)
    (hmeasured : ∀ e i, e.isNumeric →
      (∃ p ∈ (s i).activeParticles, ¬ (s i).IsMeasured u most p) → E e)
    (hnonneg : (∃ i, ∃ p ∈ (s i).activeParticles,
      (commonWish u s most).getD ((s i).wish u most p).ticks < 0) → E .negativeTicks) :
    Joint A E (fun i => allot { u with writer := w i } (s i) most) s fun a s' =>
      s' = s ∧ (a = fun i => (s i).allotted u most (commonWish u s most)) ∧
        (u.config.step.equalSteps → Word.Holds (leastWish u s most)) ∧
        (∀ i, ∀ p ∈ (s i).activeParticles, (s i).IsMeasured u most p) ∧
        ∀ i, ∀ p ∈ (s i).activeParticles,
          0 ≤ (commonWish u s most).getD ((s i).wish u most p).ticks := by
  simp only [allot]
  refine Joint.bind (Joint.of_ends (R := fun i ds t => t = s i ∧
    ds = (s i).activeParticles.map ((s i).wish u most) ∧
      ∀ p ∈ (s i).activeParticles, (s i).IsMeasured u most p) (fun i => ?_) fun _ _ h => h) ?_
  · apply (Criterion.ends_desired (s i).activeParticles (s i)).mono
    · rintro _ t ⟨rfl, hm, ht⟩
      exact ⟨ht, rfl, hm⟩
    · rintro e ⟨he, hm⟩
      exact hmeasured e i he hm
  intro ds s' h
  obtain rfl : s' = s := funext fun i => (h i).1
  obtain rfl : ds = fun i => (s' i).activeParticles.map ((s' i).wish u most) :=
    funext fun i => (h i).2.1
  refine Joint.bind (joint_commonSteps (l := leastWish u s' most) ?_ hword) ?_
  · simp only [leastWish, List.map_map]
    rfl
  rintro own t ⟨ht, hholds, hown⟩
  obtain rfl : own = fun i => (s' i).activeParticles.map fun p =>
      (commonWish u s' most).getD ((s' i).wish u most p).ticks := by
    funext i
    rw [hown i, List.map_map]
    simp only [commonWish_getD]
    rfl
  rw [ht]
  refine Joint.of_ends (R := fun i a t => t = s' i ∧
    a = (s' i).allotted u most (commonWish u s' most) ∧ ∀ p ∈ (s' i).activeParticles,
      0 ≤ (commonWish u s' most).getD ((s' i).wish u most p).ticks) (fun i => ?_) ?_
  · apply Act.ends_bind.2
    apply (ends_place (s' i) _ (s' i)).mono
    · rintro _ t ⟨ht, hpos, rfl⟩
      exact Act.ends_pure.2 ⟨ht, rfl, hpos⟩
    · rintro e ⟨rfl, hneg⟩
      exact hnonneg ⟨i, hneg⟩
  · intro a t ha
    exact ⟨funext fun i => (ha i).1, funext fun i => (ha i).2.1, hholds, fun i => (h i).2.2,
      fun i => (ha i).2.2⟩

theorem joint_choose {w : Ranks m (Option SnapshotWriter)} {next : Tick} {mesh : MeshStep}
    {instant : Instant α} (h : ∀ i, (s i).Ready u next mesh) (hi : ∀ i, (s i).instant = instant) :
    Joint (fun _ => True) (fun _ => True) (fun i => choose { u with writer := w i } (s i)) s
      fun a s' => s' = s ∧ (∀ i, (a i).IsFor u (s i)) ∧
        ∃ most, a = fun i => (s i).allotted u most (commonWish u s most) := by
  simp only [choose]
  apply Joint.bind (joint_meshTicks h hi fun _ _ _ => trivial)
  rintro ticks t ⟨ht, most, hticks, hnew, hold⟩
  rw [ht, funext hticks]
  apply (joint_allot (fun _ _ => trivial) (fun _ _ _ _ => trivial) fun _ => trivial).mono
  rintro _ t ⟨ht, rfl, -⟩
  refine ⟨ht, fun i => ⟨⟨_, rfl, fun hne => if_neg hne, fun p => commonWish_le⟩, ?_, ?_⟩, most, rfl⟩
  · intro hm
    rw [currentAbsolute, (h i).current, (h i).mesh] at hm
    rw [hi i, (h i).current]
    exact ⟨_, hnew hm⟩
  · intro hm
    rw [currentAbsolute, (h i).current, (h i).mesh] at hm
    rw [(h i).mesh]
    exact hold hm

theorem joint_allot_of_measured {A E : Fault → Prop} {w : Ranks m (Option SnapshotWriter)}
    (hm : ∀ i, ∀ p ∈ (s i).activeParticles, (s i).IsMeasured u most p)
    (h0 : ∀ i p, 0 ≤ ((s i).wish u most p).ticks) :
    Joint A E (fun i => allot { u with writer := w i } (s i) most) s fun a s' =>
      s' = s ∧ a = fun i => (s i).allotted u most (commonWish u s most) := by
  obtain ⟨hnonneg, hword⟩ := holds_leastWish h0
  refine (joint_allot (fun _ hno => absurd hword hno) ?_ ?_).mono fun _ _ h => ⟨h.1, h.2.1⟩
  · rintro _ i - ⟨p, hp, hno⟩
    exact absurd (hm i p hp) hno
  · rintro ⟨i, p, -, hneg⟩
    rw [commonWish_getD] at hneg
    split at hneg
    · exact absurd hnonneg (Int.not_le.2 hneg)
    · exact absurd (h0 i p) (Int.not_le.2 hneg)

end Ranks

end Stepper

end BlockStep
