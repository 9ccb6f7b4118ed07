import BlockStep.Proofs.OneRank
import BlockStep.Proofs.Rational

namespace BlockStep

variable {α : Type} [Scalar α] {m n : Nat}

/-- Every particle has been kicked up to the middle of its step. -/
def Store.IsKicked (s : Store α) : Prop := ∀ p ∈ s, p.kickTick = p.midpoint

namespace Store

variable {s s' : Store α}

omit [Scalar α] in
theorem IsKicked.of_marks (hs : s.IsKicked) (h : s'.marks = s.marks) : s'.IsKicked :=
  forall_mark (P := fun k => k.2 = kickPoint k.1.stepStart (TickCount.cadence k.1.bin)) h hs

end Store

def Forces.KeepMarks (forces : Option (Forces α)) : Prop :=
  ∀ k active tick store, (Forces.act forces k active tick).Always (fun e _ => ¬ e.isGap) store
    fun _ store' => store'.marks = store.marks

theorem Forces.keepMarks_none : Forces.KeepMarks (none : Option (Forces α)) :=
  fun _ _ _ _ => Act.always_pure.2 rfl

theorem Kicker.mark_kickOne (r : Kicker α) (t : TimeFactors α) (start stop : Int)
    (p : Particle α) : (r.kickOne t start stop p).mark = p.mark := by
  obtain ⟨g, hg⟩ := r.exists_kickOne t start stop p
  rw [hg]
  rfl

omit [Scalar α] in
theorem Kicker.mark_note {r : Kicker α} (h : r.isChecked) (stop : Int) (p : Particle α) :
    (r.note stop p).mark = (p.slot, stop) := by
  rw [note, if_pos h]
  rfl

omit [Scalar α] in
theorem Particle.midpoint_of_slot {p q : Particle α} (h : p.slot = q.slot) :
    p.midpoint = q.midpoint :=
  congrArg (fun s : Slot => kickPoint s.stepStart (TickCount.cadence s.bin)) h

namespace Stepper

/-- Passes the next tick, with whole kicks or with kicks in two halves. -/
def pass (u : Setup α) (forces : Option (Forces α)) (isHalved : Bool) : Step α n Nat := do
  let r ← synchronize u
  callForces forces r.1
  let moved ← advance u (!isHalved)
  if isHalved then halfKick u
  pure moved

variable {u : Setup α} {s : Stepper α n} {next : Tick} {mesh : MeshStep}

def IsSwept (isHalved : Bool) (s : Stepper α n) : Prop :=
  ∃ (st : Store α) (P : Particle α → Bool) (f : Particle α → Particle α), st.Lists P s.active ∧
    s.store = st.map f ∧ ∀ p ∈ st, (f p).kickTick =
      if P p && isHalved then (f p).stepStart else (f p).midpoint

theorem turnTo_kickTick {k : Kicker α} (hk : k.isChecked) (toMiddle : Bool) (t : TimeFactors α)
    (isDue : Nat → Bool) (want : Particle α → Int) (p : Particle α) :
    (turnTo toMiddle k t n isDue want p).kickTick =
      if toMiddle then (turnTo toMiddle k t n isDue want p).midpoint
      else (turnTo toMiddle k t n isDue want p).stepStart := by
  have hstart : (turnTo toMiddle k t n isDue want p).stepStart = p.slot.stop :=
    congrArg Slot.stepStart (slot_turnTo toMiddle k t isDue want p)
  rw [midpoint_turnTo, hstart, turnTo]
  exact congrArg Prod.snd ((Kicker.mark_kickOne ..).trans (Kicker.mark_note hk _ _))

theorem exists_concluded (u : Setup α) (toMiddle atMesh : Bool) (ticks : Int) (s : Stepper α n) :
    ∃ g : Particle α → Particle α, (∀ p, (g p).mark = p.mark) ∧
      (concluded u toMiddle atMesh ticks s).store = s.store.map g := by
  cases atMesh with
  | true => exact ⟨meshKick toMiddle u.kicker s.mesh ticks, fun _ => rfl, rfl⟩
  | false => exact ⟨id, fun _ => rfl, (Array.map_id _).symm⟩

section Pass

variable (hn : 2 ≤ n) (hk : u.kicker.isChecked)

include hn hk

theorem always_proceed (isHalved : Bool) (h : s.Ready u next mesh) (hs : s.store.IsKicked) :
    (proceed u (!isHalved)).Always (fun e _ => ¬ e.isGap) s fun _ s' => s'.IsSwept isHalved := by
  rw [proceed]
  apply Act.always_bind.2
  apply Act.always_get.2
  apply Act.always_bind.2
  apply (always_choose h).mono ?_ fun _ _ he => Fault.not_isGap_of_isPlain he.isPlain
  rintro a t ⟨rfl, ha⟩
  apply always_carryOut hn h ha
  case hgap => exact fun e _ he hgap => absurd (fun _ p hp _ => hs p hp) hgap
  case herror => exact fun _ _ => Bool.false_ne_true
  intro moved W r hready
  obtain ⟨g, hg, hst⟩ := exists_concluded u (!isHalved) (currentAbsolute u t == t.mesh.stop) a.most
    (turned u (!isHalved) t W r)
  refine ⟨t.store, t.registry.isDue, fun p => g (if t.registry.isDue p then
    turnTo (!isHalved) u.kicker t.instant.factors n t.registry.isActive W p else p),
      h.lists, ?_, ?_⟩
  · rw [hst, turned, Array.map_map]
    rfl
  · intro p hp
    have hslot (q : Particle α) : (g q).slot = q.slot := congrArg Prod.fst (hg q)
    have htick (q : Particle α) : (g q).kickTick = q.kickTick := congrArg Prod.snd (hg q)
    have hstart (q : Particle α) : (g q).stepStart = q.stepStart :=
      congrArg Slot.stepStart (hslot q)
    rw [htick, hstart, Particle.midpoint_of_slot (hslot _)]
    by_cases hd : t.registry.isDue p
    · simp only [hd, if_true, Bool.true_and]
      rw [turnTo_kickTick hk]
      cases isHalved <;> rfl
    · simp only [hd, Bool.false_and, Bool.false_eq_true, if_false]
      exact hs p hp

omit hn in
theorem always_halfKick (h : s.IsSwept true) :
    (halfKick u).Always (fun e _ => ¬ e.isGap) s fun _ s' => s'.store.IsKicked := by
  obtain ⟨st, P, f, hlists, hst, hkick⟩ := h
  rw [halfKick]
  refine Act.always_bind.2 (Act.always_get.2 (Act.always_within.2 ?_))
  rw [hst]
  refine (Kicker.ends_half hlists f s.mesh).always.mono ?_ ?_
  · rintro _ st' rfl r hr
    obtain ⟨q, hq, rfl⟩ := Array.mem_map.1 hr
    obtain ⟨p, hp, rfl⟩ := Array.mem_map.1 hq
    have hlast := hkick p hp
    by_cases hP : P p
    · simp only [if_pos hP]
      have hslot := Kicker.slot_openOne (r := u.kicker) (t := s.instant.factors) (f p)
      refine Eq.trans ?_ (Particle.midpoint_of_slot hslot).symm
      exact congrArg Prod.snd ((Kicker.mark_kickOne ..).trans (Kicker.mark_note hk _ _))
    · simp only [if_neg hP]
      simp only [hP, Bool.false_and, Bool.false_eq_true, if_false] at hlast
      exact hlast
  · rintro e _ ⟨-, hgap⟩
    refine absurd (fun _ p hp hP => ?_) hgap
    simpa only [hP, Bool.and_self, if_true] using hkick p hp

/-- However a tick is passed, all particles are kicked up to the middles of their steps, and no kick
leaves a gap. -/
theorem always_pass {forces : Option (Forces α)} (hf : Forces.KeepMarks forces) (isHalved : Bool)
    (hs : s.store.IsKicked) :
    (pass u forces isHalved).Always (fun e _ => ¬ e.isGap) s fun _ s' => s'.store.IsKicked := by
  rw [pass, advance_eq]
  refine Act.always_bind.2 (always_synchronize.mono ?_ fun _ _ he => Fault.not_isGap_of_isPlain he)
  rintro r s₁ ⟨h₁, hs₁⟩
  refine Act.always_bind.2 ((always_callForces r.1 (hf _ _ _ _)
    (fun _ => Store.slots_of_marks) h₁).mono ?_ fun _ _ he => he)
  rintro _ s₂ ⟨h₂, hs₂⟩
  refine Act.always_bind.2 (Act.always_bind.2 (Act.always_modify.2 (Act.always_bind.2 ?_)))
  have h₃ : ({ s₂ with phase := .assign } : Stepper α n).Ready u r.1 s.mesh := h₂.withRecords
  refine (always_relax h₃).mono ?_ fun _ _ he => Fault.not_isGap_of_isNumeric he
  rintro _ s₄ ⟨h₄, hs₄⟩
  have hkicked : s₄.store.IsKicked := by
    rw [← hs₁] at hs
    exact (hs.of_marks hs₂).of_marks hs₄
  refine (always_proceed hn hk isHalved h₄ hkicked).mono ?_ fun _ _ he => he
  intro moved s₅ hswept
  cases isHalved with
  | true =>
    rw [if_pos rfl]
    refine Act.always_bind.2 ((always_halfKick hk hswept).mono ?_ fun _ _ he => he)
    exact fun _ _ h => Act.always_pure.2 h
  | false =>
    refine Act.always_pure.2 ?_
    obtain ⟨st, P, f, -, hst, hkick⟩ := hswept
    rw [hst]
    intro p hp
    obtain ⟨q, hq, rfl⟩ := Array.mem_map.1 hp
    simpa only [Bool.and_false, Bool.false_eq_true, if_false] using hkick q hq

end Pass

end Stepper

namespace Fleet

/-- A pass of all ranks; those of `isHalved` kick in two halves. -/
def pass (f : Fleet α m) (k : Nat) (isHalved : Ranks m Bool) :
    Ranks m (Stepper.Step α f.setup.bins Nat) :=
  fun i => Stepper.pass (f.on i) (f.forces k i) (isHalved i)

/-- The ranks after a number of passes, if all of these are completed. -/
def passed? (f : Fleet α m) (store : Ranks m (Store α)) (isHalved : Nat → Ranks m Bool) :
    Nat → Option (Ranks m (Stepper α f.setup.bins))
  | 0 => f.first? store
  | k + 1 => (passed? f store isHalved k).bind (Ranks.states? (f.pass k (isHalved k)))

variable {f : Fleet α m} {store : Ranks m (Store α)} {isHalved : Nat → Ranks m Bool} {k : Nat}
  {s : Ranks m (Stepper α f.setup.bins)}

section

variable (hu : f.setup.IsMade) (hk : f.setup.kicker.isChecked)
  (hf : ∀ k i, Forces.KeepMarks (f.forces k i))

include hu hk hf

theorem all_pass (hs : ∀ i, (s i).store.IsKicked) (way : Ranks m Bool) (i : Fin (m + 1)) :
    (f.pass k way i (s i)).All
      (Act.Outcome.Is (fun e _ => ¬ e.isGap) fun _ s' => s'.store.IsKicked) :=
  Stepper.always_pass (u := f.on i) hu.two_le hk (hf k i) (way i) (hs i)

theorem isKicked_of_passed? (hfresh : ∀ i, (store i).IsKicked)
    (h : f.passed? store isHalved k = some s) (i : Fin (m + 1)) : (s i).store.IsKicked := by
  induction k generalizing s i with
  | zero =>
    rw [(isFirst_of_after? h i).store]
    exact hfresh i
  | succ k ih =>
    obtain ⟨t, ht, hs⟩ := Option.bind_eq_some_iff.1 h
    obtain ⟨o, ho, hstates⟩ := Ranks.states?_eq_some.1 hs
    have hrest := congrFun (Ranks.outcomes?_eq_some.1 ho) i
    have hout := Collective.All.of_settle (all_pass hu hk hf (ih ht) (isHalved k)) hrest
    obtain ⟨⟨b, hb⟩, hi⟩ := hstates i
    rw [Act.Outcome.Is, hb] at hout
    rwa [← hi]

/-- Kicks that are checked leave no gap, in any sequence of passes with whole kicks and with kicks
in two halves: after every pass all particles, due or not, have been kicked up to the middles of
their steps, and no rank finds that a kick does not start where the last one of its particle
ended. -/
theorem kicks_leave_no_gap
    (hfresh : ∀ i, ∀ p ∈ store i, p.bin = 0 ∧ p.stepStart = 0 ∧ p.kickTick = 0)
    (h : f.passed? store isHalved k = some s) :
    (∀ i, ∀ p ∈ (s i).store, p.kickTick = p.midpoint) ∧
      ∀ i id last start, ¬ Ranks.Fails (f.pass k (isHalved k)) s i (.kickGap id last start) := by
  have hfirst (i : Fin (m + 1)) : (store i).IsKicked := by
    intro p hp
    obtain ⟨hbin, hstart, htick⟩ := hfresh i p hp
    rw [Particle.midpoint, hbin, hstart, htick]
    rfl
  have hkicked := isKicked_of_passed? hu hk hf hfirst h
  refine ⟨hkicked, ?_⟩
  rintro i id last start ⟨o, ho, he⟩
  have hout := Collective.All.of_settle (all_pass hu hk hf hkicked (isHalved k)) ho
  rw [Act.Outcome.Is, he] at hout
  exact hout rfl

end

end Fleet

namespace Sample

def checkedConfig : Config Rat := { config with debug := { config.debug with checkKicks := true } }

def checked : Setup Rat :=
  { setup with config := checkedConfig, kicker := checkedConfig.kicker setup.kicker.source false }

theorem isMade_checked : checked.IsMade := ⟨by decide, by decide, rfl⟩

def checkedFleet : Fleet Rat 1 := ⟨checked, fun _ => none, fun _ _ => none⟩

def alternate (k : Nat) : Ranks 1 Bool := fun _ => k % 2 == 1

end Sample

theorem Fleet.kicks_leave_no_gap_sample :
    ∃ s, Sample.checkedFleet.passed? Sample.store Sample.alternate 3 = some s ∧
      (∀ i, ∀ p ∈ (s i).store, p.kickTick = p.midpoint) ∧
      ∀ i id last start, ¬ Ranks.Fails (Sample.checkedFleet.pass 3 (Sample.alternate 3)) s i
        (.kickGap id last start) := by
  have hsome : (Sample.checkedFleet.passed? Sample.store Sample.alternate 3).isSome := by
    decide +kernel
  obtain ⟨s, h⟩ := Option.isSome_iff_exists.1 hsome
  refine ⟨s, h, kicks_leave_no_gap Sample.isMade_checked rfl
    (fun _ _ => Forces.keepMarks_none) ?_ h⟩
  intro i
  match i with
  | 0 => simp [Sample.store, Sample.particle, default, Particle.zero]
  | 1 => simp [Sample.store, Sample.particle, default, Particle.zero]

end BlockStep
