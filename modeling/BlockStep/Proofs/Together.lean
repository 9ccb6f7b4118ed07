import BlockStep.Proofs.Stranding

namespace BlockStep

variable {α σ : Type} [Scalar α] {m n : Nat}

/-- Called together the forces come to an end on all ranks without a fault; they leave the schedule
and the ticks of the last kicks, and make no mass negative. -/
def Forces.Mild (forces : Ranks m (Option (Forces α))) : Prop :=
  ∀ (k : Ranks m Nat) (active : Ranks m (List Nat)) (tick : Tick) (store : Ranks m (Store α)),
    Joint (fun _ => False) (fun _ => False)
      (fun i => Forces.act (forces i) (k i) (active i) tick) store
      fun _ store' => ∀ i, (store i).Eases (store' i)

theorem Forces.mild_none : Forces.Mild fun _ : Fin (m + 1) => (none : Option (Forces α)) :=
  fun _ _ _ store => Joint.pure fun i => .refl (store i)

namespace Stepper

theorem always_land {u : Setup α} (forces : Option (Forces α)) {s : Stepper α n} {next : Tick}
    (h : ¬ next.toAbsolute u.timebase < currentAbsolute u s) :
    (land u forces s next).Always (fun _ t => t.station = (next, s.log)) s fun _ _ => True := by
  refine Act.always_bind.2 ((always_arrive h s).mono ?_ fun _ _ h => h)
  intro r t ht
  refine Act.always_bind.2 ((keeps_prepare _ _ t).mono (fun _ _ _ => Act.always_pure.2 trivial) ?_)
  exact fun _ t' h => (congrArg (·.2) h).trans ht

variable {u : Setup α} {w : Ranks m (Option SnapshotWriter)} {forces : Ranks m (Option (Forces α))}
  {now next : Tick} {mesh : MeshStep} {s t : Ranks m (Stepper α n)}

section Signed

variable [Scalar.Signed α] (ho : ¬ u.config.cosmology.omega0 < 0.0)
  (hg : ¬ u.config.cosmology.gravity < 0.0) (hf : Forces.Mild forces)
  (hmass : ∀ i, (s i).store.HasMasses)

include ho hg hmass

theorem joint_relax_of_masses :
    Joint (fun _ => True) (fun _ => False) (fun i => relax { u with writer := w i }) s
      fun _ s' => ∀ i, ∃ st : Store α, s' i = { s i with store := st } ∧ (s i).store.Eases st := by
  simp only [relax]
  split
  · refine Joint.bind (Joint.within (Q := fun _ s' => ∀ i, ∃ st : Store α,
      s' i = { s i with store := st } ∧ (s i).store.Eases st)
      ((Glass.joint_make_of_masses ho hg hmass).mono fun _ st h i => ⟨st i, rfl, h i⟩)) ?_
    exact fun _ s' h => Joint.pure h
  · exact Joint.pure fun i => ⟨(s i).store, rfl, .refl _⟩

include hf

theorem joint_prepare_of_mild (h : ∀ i, (s i).Ready u next mesh) :
    Joint (fun _ => True) (fun _ => False)
      (fun i => prepare { u with writer := w i } (forces i) next) s
      fun _ s' => ∀ i, (s' i).Ready u next mesh ∧ (s i).store.Eases (s' i).store := by
  simp only [prepare, callForces_eq, bind_assoc]
  refine Joint.modify_bind (Joint.get_bind (Joint.set_bind ?_))
  refine Joint.bind (Q := fun _ s' => ∀ i, (s' i).Ready u next mesh ∧
    (s i).store.Eases (s' i).store) (Joint.within ?_) ?_
  · refine ((hf _ _ next _).mono_alike fun _ he => he.elim).mono fun _ st hst i => ?_
    have hr := (h i).withStore (Store.slots_of_marks (hst i).marks)
    exact ⟨hr.withRecords, hst i⟩
  intro _ s₁ h₁
  refine Joint.get_bind (Joint.modify_bind ?_)
  refine Joint.bind (joint_relax_of_masses ho hg fun i => (h₁ i).2.masses (hmass i)) ?_
  intro _ s₂ h₂
  refine Joint.pure fun i => ?_
  obtain ⟨st, hs₂, hst⟩ := h₂ i
  have hr := (h₁ i).1.withStore (Store.slots_of_marks hst.marks)
  rw [hs₂]
  exact ⟨hr.withRecords, (h₁ i).2.trans hst⟩

theorem joint_land (hnow : ∀ i, (s i).current = now) (hmesh : ∀ i, (s i).mesh = mesh)
    (hfits : ∀ i, ∀ p ∈ (s i).store, p.Fits n) :
    Joint (fun _ => True) (fun _ => False)
      (fun i => land { u with writer := w i } (forces i) (s i) next) s
      fun _ t => ∀ i, (t i).Ready u next mesh ∧ (s i).store.Eases (t i).store := by
  simp only [land]
  refine Joint.bind (joint_arrive hnow hmesh (fun _ => trivial) (fun _ _ => trivial)
    fun e i _ hno => hno (hfits i)) ?_
  intro r s₁ h₁
  have hr (i : Fin (m + 1)) : (r i).1 = next := (h₁ i).1
  have hst (i : Fin (m + 1)) : (s₁ i).store = (s i).store := (h₁ i).2.2.2
  simp only [hr]
  refine Joint.bind (joint_prepare_of_mild ho hg hf (fun i => ?_) fun i => (h₁ i).2.2.1) ?_
  · rw [hst i]
    exact hmass i
  intro active s₂ h₂
  refine Joint.pure fun i => ⟨(h₂ i).1, ?_⟩
  rw [← hst i]
  exact (h₂ i).2

/-- Ranks that know the next tick come to it together and are ready for new steps there, or fail
alike. -/
theorem finish_land (hnow : ∀ i, (s i).current = now) (hmesh : ∀ i, (s i).mesh = mesh)
    (hfits : ∀ i, ∀ p ∈ (s i).store, p.Fits n) (next : Tick) :
    (∃ (r : Ranks m (Tick × Int × Nat)) (t : Ranks m (Stepper α n)),
      Ranks.Finish (fun i => land { u with writer := w i } (forces i) (s i) next) s
        (fun i => .ok (r i)) t ∧
        ∀ i, (t i).Ready u next mesh ∧ (s i).store.Eases (t i).store) ∨
    ∃ (e : Fault) (t : Ranks m (Stepper α n)) (now' : Tick),
      Ranks.Finish (fun i => land { u with writer := w i } (forces i) (s i) next) s
        (fun _ => .error e) t ∧ ∀ i, (t i).station = (now', (s i).log) := by
  have habsolute (i : Fin (m + 1)) :
      currentAbsolute { u with writer := w i } (s i) = now.toAbsolute u.timebase :=
    congrArg (Tick.toAbsolute · u.timebase) (hnow i)
  by_cases hback : next.toAbsolute u.timebase < now.toAbsolute u.timebase
  · refine .inr ⟨.syncBackwards next now, s, now, Ranks.finish_of_does fun i => ?_, fun i => ?_⟩
    · have hbehind : next.toAbsolute u.timebase <
          currentAbsolute { u with writer := w i } (s i) := by rwa [habsolute i]
      have hdoes := does_arrive_of_lt hbehind
      rw [hnow i] at hdoes
      exact Act.does_bind_error.2 (.inl hdoes)
    · rw [station, hnow i]
  · have hkeep (i : Fin (m + 1)) : (land { u with writer := w i } (forces i) (s i) next).Always
        (fun _ t => t.station = (next, (s i).log)) (s i) fun _ _ => True :=
      always_land (u := { u with writer := w i }) (forces i) (by rwa [habsolute i])
    rcases (joint_land ho hg hf hmass hnow hmesh hfits).finish hkeep with
      ⟨r, t, ht, hready⟩ | ⟨e, t, ht, -, hstation⟩
    · exact .inl ⟨r, t, ht, hready⟩
    · exact .inr ⟨e, t, next, ht, hstation⟩

/-- Ranks come to the next tick together and are ready for new steps there, or fail alike. -/
theorem finish_lead (hnow : ∀ i, (s i).current = now) (hmesh : ∀ i, (s i).mesh = mesh)
    (hfits : ∀ i, ∀ p ∈ (s i).store, p.Fits n) (htb : u.timebase ≠ 0) :
    (∃ (r : Ranks m (Tick × Int × Nat)) (t : Ranks m (Stepper α n)) (next : Tick),
      Ranks.Finish (fun i => lead { u with writer := w i } (forces i)) s (fun i => .ok (r i)) t ∧
        ∀ i, (t i).Ready u next mesh ∧ (s i).store.Eases (t i).store) ∨
    ∃ (e : Fault) (t : Ranks m (Stepper α n)) (now' : Tick),
      Ranks.Finish (fun i => lead { u with writer := w i } (forces i)) s (fun _ => .error e) t ∧
        ∀ i, (t i).station = (now', (s i).log) := by
  obtain ⟨next, hagree⟩ : ∃ next, Ranks.Finish (fun _ => agree u.timebase) s
    (fun i => .ok ({ s i with phase := .sync }, next)) fun i => { s i with phase := .sync } :=
    ⟨_, finish_agree hnow htb⟩
  have hlead {r : Ranks m (Except Fault (Tick × Int × Nat))} {t : Ranks m (Stepper α n)}
      (h : Ranks.Finish (fun i => land { u with writer := w i } (forces i)
        { s i with phase := .sync } next) (fun i => { s i with phase := .sync }) r t) :
      Ranks.Finish (fun i => lead { u with writer := w i } (forces i)) s r t := by
    simp only [lead_eq]
    exact hagree.bind h
  rcases finish_land (w := w) (s := fun i => { s i with phase := .sync }) ho hg hf hmass hnow
    hmesh hfits next with ⟨r, t, ht, hready⟩ | ⟨e, t, now', ht, hstation⟩
  · exact .inl ⟨r, t, next, hlead ht, hready⟩
  · exact .inr ⟨e, t, now', hlead ht, hstation⟩

end Signed

theorem always_conclude_error (s : Stepper α n) (toMiddle atMesh : Bool) (ticks now all : Int) :
    (conclude u toMiddle atMesh ticks now all).Always
      (fun _ t => t.current = s.current ∧ t.mesh = s.mesh) s fun _ _ => True := by
  have hdone (s t : Stepper α n) : (setPhase .done : Step α n Unit).Always
      (fun _ t => t.current = s.current ∧ t.mesh = s.mesh) t fun _ _ => True :=
    Act.always_modify.2 trivial
  rw [conclude]
  split
  · exact Act.always_bind.2 ((does_abort u all s).always_error.2 ⟨rfl, rfl⟩)
  · split
    · rw [renewMesh]
      refine Act.always_bind.2 (Act.always_bind.2 (Act.always_modify.2 (Act.always_bind.2
        (Act.always_get.2 (Act.always_bind.2 (Act.always_within.2 ?_))))))
      refine (Kicker.ends_longRange (E := fun _ => False) _ _ _).always.mono ?_
        fun _ _ he => he.elim
      intro _ st _
      exact Act.always_bind.2 (Act.always_lift (fun m _ => Act.always_modify.2 (hdone s _))
        fun _ _ => ⟨rfl, rfl⟩)
    · exact hdone s s

theorem always_carryOut_error (s : Stepper α n) (toMiddle : Bool) (ticks : Int) :
    (do
      let a ← allot u s ticks
      carryOut u toMiddle s a : Step α n Nat).Always
        (fun _ t => t.current = s.current ∧ t.mesh = s.mesh) s fun _ _ => True := by
  have hmoment (t : Stepper α n) (h : t.moment = s.moment) :
      t.current = s.current ∧ t.mesh = s.mesh :=
    ⟨congrArg (·.2.1) h, congrArg (·.2.2.1) h⟩
  apply Act.always_bind.2
  apply (keeps_allot (g := moment) s ticks s).mono ?_ fun _ => hmoment
  intro a t ht
  rw [carryOut]
  apply Act.always_bind.2
  apply (keeps_turnAll toMiddle s _ t).mono ?_ fun _ t' h => hmoment t' (h.trans ht)
  intro moved t' ht'
  have hkept := hmoment t' (ht'.trans ht)
  apply Act.always_bind.2
  rw [sumUp]
  apply Act.always_bind.2
  apply Act.always_reduce.2
  intro all _
  apply (always_conclude_error t' _ _ _ _ _).mono (fun _ _ _ => Act.always_pure.2 trivial)
  rintro _ t'' ⟨hcurrent, hmesh⟩
  exact ⟨hcurrent.trans hkept.1, hmesh.trans hkept.2⟩

section Proceed

variable {instant : Instant α} (h : ∀ i, (t i).Ready u next mesh)
  (hi : ∀ i, (t i).instant = instant)

include h hi

/-- Ranks find the mesh step in force together, or fail alike. -/
theorem finish_meshTicks :
    (∃ most, Ranks.Finish (fun i => meshTicks { u with writer := w i } (t i)) t
      (fun _ => .ok most) t ∧
      (next.toAbsolute u.timebase = mesh.stop → MeshStep.ticksOf u.config u.timeline instant.factors
        (.agreed fun i => .ofStore (t i).store) next.epoch = .ok most) ∧
      (next.toAbsolute u.timebase ≠ mesh.stop → most = mesh.step)) ∨
    ∃ (e : Fault) (t' : Ranks m (Stepper α n)),
      Ranks.Finish (fun i => meshTicks { u with writer := w i } (t i)) t (fun _ => .error e) t' ∧
        ∀ i, (t' i).current = next ∧ (t' i).mesh = mesh := by
  have hjoint := joint_meshTicks (A := fun _ => True) (E := fun _ => False) (w := w) h hi
    fun _ _ _ => trivial
  rcases hjoint.finish fun i => keeps_meshTicks (g := moment) (t i) (t i) with
    ⟨ticks, t', ht, rfl, most, hticks, hnew, hold⟩ | ⟨e, t', ht, -, hmoment⟩
  · rw [funext hticks] at ht
    exact .inl ⟨most, ht, hnew, hold⟩
  · refine .inr ⟨e, t', ht, fun i => ⟨?_, ?_⟩⟩
    · exact (congrArg (·.2.1) (hmoment i)).trans (h i).current
    · exact (congrArg (·.2.2.1) (hmoment i)).trans (h i).mesh

variable [Scalar.Signed α] (hn : 2 ≤ n) (htb : 0 ≤ u.timeline.timebase) {most : Int}
  (hmost : 0 ≤ most)
  (hk : u.kicker.isChecked → ∀ i, (t i).store.IsKicked)

include hn htb hmost hk

/-- Ranks of which none lacks weights go through a course, or fail alike. -/
theorem finish_allot_carryOut
    (hmeshed : (courseOf u next instant most t).Meshed u mesh fun i => (t i).store)
    (hw : ∀ i, ¬ LacksWeights u most (t i)) :
    (∃ (b : Ranks m Nat) (t' : Ranks m (Stepper α n)),
      Ranks.Finish (fun i => do
        let a ← allot { u with writer := w i } (t i) most
        carryOut { u with writer := w i } true (t i) a) t (fun i => .ok (b i)) t' ∧
        ∀ i, (courseOf u next instant most t).Ran u mesh (t i).store (t' i)) ∨
    ∃ (e : Fault) (t' : Ranks m (Stepper α n)),
      Ranks.Finish (fun i => do
        let a ← allot { u with writer := w i } (t i) most
        carryOut { u with writer := w i } true (t i) a) t (fun _ => .error e) t' ∧
        ∀ i, (t' i).current = next ∧ (t' i).mesh = mesh := by
  have hdue (i : Fin (m + 1)) {p : Particle α} (hp : p ∈ (t i).store)
      (hd : (courseOf u next instant most t).isDue n p) : p ∈ (t i).activeParticles := by
    rw [(h i).mem_activeParticles, isDue_of_marked (c := courseOf u next instant most t)
      (h i).marked]
    exact ⟨hp, hd⟩
  have hleast := isLeast_steps (c := courseOf u next instant most t) h hi
  have hwant (p : Particle α) : 0 ≤ (courseOf u next instant most t).want u p :=
    Course.want_nonneg (fun he => ⟨_, if_pos he, hleast⟩) (fun he => if_neg he) htb hmost p
  have hjoint := joint_allot_carryOut (A := fun _ => True) (E := fun _ => False) (w := w)
    (c := courseOf u next instant most t) hn h hi hmeshed rfl (fun _ _ => trivial)
    (fun _ _ => trivial)
    (fun e i _ hp => by
      obtain ⟨p, hp, hd, hm⟩ := hp
      refine hm ?_
      have hmeasured := isMeasured_of_not_lacksWeights (h i) (hw i) p (hdue i hp hd)
      rwa [hi i, (h i).current] at hmeasured)
    fun e i _ hp => by
      obtain ⟨p, hp, -, hno⟩ := hp
      exact hno ⟨hwant p, fun hc => hk hc i p hp⟩
  rcases hjoint.finish fun i => always_carryOut_error (u := { u with writer := w i })
    (t i) true most with ⟨b, t', ht, -, -, hran⟩ | ⟨e, t', ht, -, hkept⟩
  · exact .inl ⟨b, t', ht, hran⟩
  · exact .inr ⟨e, t', ht, fun i => ⟨(hkept i).1.trans (h i).current, (hkept i).2.trans (h i).mesh⟩⟩

omit hi in
theorem strands_allot_carryOut {i j : Fin (m + 1)} (hl : LacksWeights u most (t i))
    (hw : ¬ LacksWeights u most (t j)) : ∃ e,
      Ranks.Strands (fun i => do
        let a ← allot { u with writer := w i } (t i) most
        carryOut { u with writer := w i } true (t i) a) t i j e := by
  cases he : (t i).instant.factors.gasWeights with
  | ok w => exact absurd he (hl.2.2 w)
  | error e =>
    have hdoes := does_allot_of_lacksWeights (u := { u with writer := w i }) hl he
    have hwaits := waits_allot_carryOut (u := { u with writer := w j }) hn
      ((h j).withWriter (w j)) hw htb hmost (fun hc => hk hc j) true
    exact ⟨e, Ranks.strands_of_does (Act.does_bind_error.2 (.inl hdoes)) hwaits⟩

omit h hn htb hmost hk [Scalar.Signed α] in
theorem finish_allot_of_lacksWeights (hl : ∀ i, LacksWeights u most (t i)) : ∃ e,
    Ranks.Finish (fun i => allot { u with writer := w i } (t i) most) t (fun _ => .error e) t := by
  cases he : instant.factors.gasWeights with
  | ok w =>
    rw [← hi 0] at he
    exact absurd he ((hl 0).2.2 w)
  | error e =>
    have hdoes (i : Fin (m + 1)) :=
      does_allot_of_lacksWeights (u := { u with writer := w i }) (hl i) (by rw [hi i]; exact he)
    exact ⟨e, Ranks.finish_of_does hdoes⟩

end Proceed

end Stepper

end BlockStep
