import BlockStep.Proofs.Always
import BlockStep.Proofs.Arrival

namespace BlockStep

variable {α σ : Type} [Scalar α] {n : Nat}

/-- The integer settings of a run fit together. -/
structure Setup.IsMade (u : Setup α) : Prop where
  two_le : 2 ≤ u.bins
  le_most : u.bins ≤ Fault.mostBins
  timebase_eq : u.timeline.timebase = u.timebase

namespace Setup.IsMade

variable {u : Setup α}

omit [Scalar α] in
theorem le_62 (h : u.IsMade) : u.bins ≤ 62 := Nat.le_trans h.le_most (by decide)

omit [Scalar α] in
theorem timebase_pos (_ : u.IsMade) : 0 < u.timebase := by
  exact Int.natCast_pos.2 (pow2_pos (u.bins - 1))

omit [Scalar α] in
theorem timebase_le (h : u.IsMade) : u.timebase ≤ pow2 Fault.mostBins :=
  Int.ofNat_le.2 (pow2_le (Nat.le_trans (Nat.sub_le _ _) h.le_most))

omit [Scalar α] in
theorem even_timebase (h : u.IsMade) : 2 ∣ u.timebase := by
  have hbins := h.two_le
  exact natCast_pow2_dvd (m := 1) (n := u.bins - 1) (by omega)

omit [Scalar α] in
theorem endTick_eq (h : u.IsMade) : u.timeline.endTick = u.timeline.epochs * u.timebase := by
  rw [Timeline.endTick, h.timebase_eq]

theorem ends_clock (c : TimelineConfig α) (t : σ) :
    (c.clock : Act α σ (Timeline α)).Ends (fun _ => True) t fun l _ =>
      l.timebase = c.timebase ∧ l.endTick ≤ Word.greatest := by
  rw [TimelineConfig.clock, Timeline.announce]
  have hmake : (Act.lift (Timeline.make c.timeBegin c.timeMax c.outputs c.timebase) :
      Act α σ (Timeline α)).Ends (fun _ => True) t fun l _ =>
        l.timebase = c.timebase ∧ l.endTick ≤ Word.greatest := by
    refine Act.ends_lift (fun l hl => ?_) fun _ _ => trivial
    rw [Timeline.make] at hl
    split at hl
    · dsimp only at hl
      split at hl
      · cases hl
      next hwords =>
        cases hl
        exact ⟨rfl, Int.not_lt.1 hwords⟩
    · cases hl
  have hrest : (do
      let l ← Act.lift (Timeline.make c.timeBegin c.timeMax c.outputs c.timebase)
      Act.tell (.timelineMade l.epochs c.timeBegin c.timeMax c.timebase)
      Pure.pure l : Act α σ (Timeline α)).Ends (fun _ => True) t
        fun l _ => l.timebase = c.timebase ∧ l.endTick ≤ Word.greatest :=
    Act.ends_bind.2 (hmake.mono
      (fun l t' hl => Act.ends_bind.2 (Act.ends_tell.2 (Act.ends_pure.2 hl))) fun _ he => he)
  split
  · exact Act.ends_bind.2 (Act.ends_fail.2 trivial)
  · dsimp only
    split
    · exact Act.ends_bind.2 (Act.ends_tell.2 hrest)
    · exact hrest

theorem always_ofConfig {c : Config α} (h2 : 2 ≤ c.timeline.bins)
    (h32 : c.timeline.bins ≤ Fault.mostBins) (rule : KickRule α) (inTurn : Bool)
    (writer : Option SnapshotWriter) (t : σ) :
    (Setup.ofConfig c rule inTurn writer).Always (fun _ _ => True) t fun u _ =>
      u.IsMade ∧ u.timeline.endTick ≤ Word.greatest ∧ u.writer = writer := by
  rw [Setup.ofConfig]
  refine Act.always_bind.2 ((ends_clock c.timeline t).always.mono (fun l _ hl => ?_) fun _ _ h => h)
  refine Act.always_bind.2 ((Act.always_true _ _).mono (fun source _ _ => ?_) fun _ _ h => h)
  exact Act.always_pure.2 ⟨⟨h2, h32, hl.1⟩, hl.2, rfl⟩

end Setup.IsMade

namespace Stepper

variable {u : Setup α} {store : Store α}

/-- A rank before its first cycle, if it can be made. -/
def made? (u : Setup α) (store : Store α) : Option (Stepper α u.bins) :=
  match start u store with
  | .error _ => none
  | .ok s =>
    let o := (initBins u s).alone
    if o.result.isOk then some o.state else none

def IsBegun (u : Setup α) : Prop :=
  (∃ i, u.config.instant u.config.timeline.timeBegin = .ok i) ∧
    ∃ i, u.config.instant (u.timeline.scaleFactor 0) = .ok i

structure IsFirst (store : Store α) (s : Stepper α n) : Prop where
  counts : s.registry.Counts store
  store : s.store = store
  current : s.current = ⟨0, 0⟩
  mesh : s.mesh = ⟨0, 0⟩
  phase : s.phase = .idle

omit [Scalar α] in
theorem dueMask_zero : Registry.dueMask n 0 = .replicate n true := by
  apply Vector.ext
  intro b hb
  rw [Registry.getElem_dueMask, Vector.getElem_replicate, Int.zero_emod, beq_self_eq_true,
    Bool.or_true]

/-- What a run adds to: the number of its cycles, their rows and the snapshots. -/
def records (s : Stepper α n) : Nat × List (Row α) × List (Int × Snapshot α) :=
  (s.cycle, s.rows, s.shots)

/-- A rank that counts its particles at the first tick is ready there. -/
theorem ends_initBins (s : Stepper α n) :
    (initBins u : Step α n Unit).Ends (fun e =>
        u.config.instant (u.timeline.scaleFactor 0) = .error e ∨ ¬ ∀ p ∈ s.store, p.Fits n)
      s fun _ s' => s'.Ready u ⟨0, 0⟩ ⟨0, 0⟩ ∧ s'.store = s.store ∧ s'.phase = .idle ∧
        s'.records = s.records := by
  rw [initBins]
  refine Act.ends_bind.2 (Act.ends_modify.2 (Act.ends_bind.2 (ends_setTime.mono ?_ ?_)))
  · rintro _ s₁ ⟨i, hi, rfl⟩
    refine Act.ends_bind.2 (Act.ends_modify.2 (Act.ends_bind.2 (ends_recount.mono ?_ ?_)))
    · rintro _ s₂ ⟨r, rfl, hc, ha, hf⟩
      refine Act.ends_bind.2 ((ends_checkCounts ?_ ?_).mono ?_ fun _ he => he)
      · exact hc
      · exact hf
      · rintro _ s₃ rfl
        refine ends_setPhase.2 ⟨⟨rfl, rfl, ?_, hc, ?_, r.lists_due s.store, hf⟩, rfl, rfl, rfl⟩
        · rwa [Tick.toAbsolute_zero]
        · exact ha.trans dueMask_zero.symm
    · rintro e ⟨-, hf⟩
      exact .inr hf
  · exact fun e he => .inl he

theorem start_cases (u : Setup α) (store : Store α) :
    (∃ s : Stepper α n, start u store = .ok s ∧ s.store = store ∧ s.records = (0, [], []) ∧
      ∃ i, u.config.instant u.config.timeline.timeBegin = .ok i) ∨
    ∃ e, (start u store : Except Fault (Stepper α n)) = .error e ∧
      u.config.instant u.config.timeline.timeBegin = .error e := by
  rw [start]
  cases u.config.instant u.config.timeline.timeBegin with
  | ok i => exact .inl ⟨_, rfl, rfl, rfl, i, rfl⟩
  | error e => exact .inr ⟨e, rfl, rfl⟩

/-- A rank can be made where its particles have places in the tables. -/
theorem made?_cases (u : Setup α) (store : Store α) :
    (∃ s, made? u store = some s ∧ s.IsFirst store ∧ IsBegun u ∧ ∀ p ∈ store, p.Fits u.bins) ∨
      made? u store = none ∧ ¬ (IsBegun u ∧ ∀ p ∈ store, p.Fits u.bins) := by
  rw [made?]
  rcases start_cases (n := u.bins) u store with ⟨s, hs, rfl, -, hi⟩ | ⟨e, hs, he⟩
  · rw [hs]
    rcases ends_initBins (u := u) s with
      ⟨_, s', ⟨es, hd⟩, hready, hst, hphase, -⟩ | ⟨e, s', ⟨es, hd⟩, he⟩
    · have hi' := hready.instant
      rw [Tick.toAbsolute_zero] at hi'
      have hcounts := hready.counts
      have hfits := hready.fits
      rw [hst] at hcounts hfits
      simp only [hd]
      exact .inl ⟨s', rfl, ⟨hcounts, hst, hready.current, hready.mesh, hphase⟩, ⟨hi, _, hi'⟩, hfits⟩
    · simp only [hd]
      refine .inr ⟨rfl, ?_⟩
      rintro ⟨⟨-, i, hi'⟩, hf⟩
      rcases he with he | he
      · cases he.symm.trans hi'
      · exact he hf
  · rw [hs]
    refine .inr ⟨rfl, ?_⟩
    rintro ⟨⟨⟨i, hi⟩, -⟩, -⟩
    cases he.symm.trans hi

/-- A rank that is made is ready at the first tick, and has completed no cycle. -/
theorem ready_of_made? {s : Stepper α u.bins} (h : made? u store = some s) :
    s.Ready u ⟨0, 0⟩ ⟨0, 0⟩ ∧ s.phase = .idle ∧ s.records = (0, [], []) := by
  rw [made?] at h
  rcases start_cases (n := u.bins) u store with ⟨s₀, hs, -, hrecords, -⟩ | ⟨e, hs, -⟩
  · rw [hs] at h
    rcases ends_initBins (u := u) s₀ with
      ⟨_, s', ⟨es, hd⟩, hready, -, hphase, hkept⟩ | ⟨e, s', ⟨es, hd⟩, -⟩
    · simp only [hd] at h
      cases h
      exact ⟨hready, hphase, hkept.trans hrecords⟩
    · simp only [hd] at h
      cases h
  · rw [hs] at h
    cases h

end Stepper

end BlockStep
