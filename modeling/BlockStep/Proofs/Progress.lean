import BlockStep.Proofs.OneRank
import BlockStep.Proofs.OnSchedule
import BlockStep.Proofs.Rational

namespace BlockStep

variable {α : Type} [Scalar α] {m : Nat}

namespace OnSchedule

variable {u : Setup α} {now : Tick} {mesh : MeshStep} {s s' : Ranks m (Stepper α u.bins)}
  {c : Course α} {st : Ranks m (Store α)}

omit [Scalar α] in
theorem epoch_le (h : OnSchedule u now s) {epoch : Int}
    (he : now.toAbsolute u.timebase < epoch * u.timebase) :
    (now.epoch + 1) * u.timebase ≤ epoch * u.timebase := by
  have hnonneg := h.nonneg
  have hlt := h.lt_timebase
  have hepoch : now.epoch < epoch := by
    refine Int.lt_of_mul_lt_mul_right (a := u.timebase) ?_ (by omega)
    rw [Tick.toAbsolute] at he
    omega
  refine Int.mul_le_mul_of_nonneg_right ?_ ?_
  · omega
  · omega

omit [Scalar α] in
theorem le_boundary (h : OnSchedule u now s) {next : Tick} (hnext : IsNext u now next s)
    {epoch : Int}
    (he : now.toAbsolute u.timebase < epoch * u.timebase) :
    next.toAbsolute u.timebase ≤ epoch * u.timebase := Int.le_trans hnext.le_epoch (h.epoch_le he)

omit [Scalar α] in
theorem le_endTick (h : OnSchedule u now s) (hu : u.IsMade) {next : Tick}
    (hnext : IsNext u now next s)
    (hend : now.toAbsolute u.timebase < u.timeline.endTick) :
    next.toAbsolute u.timebase ≤ u.timeline.endTick := by
  rw [hu.endTick_eq] at hend ⊢
  exact h.le_boundary hnext hend

end OnSchedule

namespace Stepper

section OneRank

variable {u : Setup α} {forces : Option (Forces α)} {n : Nat} {s t : Stepper α n}

end OneRank

variable {u : Setup α} {w : Ranks m (Option SnapshotWriter)} {forces : Ranks m (Option (Forces α))}
  {now : Tick} {mesh : MeshStep} {s : Ranks m (Stepper α u.bins)}

end Stepper

namespace Stepper

variable {u : Setup α} {w : Ranks m (Option SnapshotWriter)} {forces : Ranks m (Option (Forces α))}
  {now : Tick} {mesh : MeshStep} {s : Ranks m (Stepper α u.bins)} {i : Fin (m + 1)}
  {t : Stepper α u.bins}

end Stepper

namespace Fleet

variable {f : Fleet α m} {store : Ranks m (Store α)} {k : Nat}
  {s s' : Ranks m (Stepper α f.setup.bins)}

theorem current_bounds (hu : f.setup.IsMade) (hf : f.KeepsSchedule)
    (hfresh : ∀ i, ∀ p ∈ store i, p.slot.Fresh) (h : f.after? store k = some s) (i : Fin (m + 1)) :
    0 ≤ (s i).currentAbsolute f.setup ∧
      (s i).currentAbsolute f.setup ≤ f.setup.timeline.endTick := by
  induction k generalizing s with
  | zero =>
    have hfirst := isFirst_of_after? h i
    rw [Stepper.currentAbsolute, hfirst.current, Tick.toAbsolute_zero, hu.endTick_eq]
    exact ⟨Int.le_refl 0, Int.mul_nonneg (Int.natCast_nonneg _) (Int.le_of_lt hu.timebase_pos)⟩
  | succ k ih =>
    obtain ⟨t, ht, -⟩ := after?_succ.1 h
    obtain ⟨now, mesh, c, st, hin, hon, hend, hst, hc⟩ := exists_leads hu hf hfresh ht h
    have hnow := ih ht
    rw [Stepper.currentAbsolute, hin.current] at hnow
    rw [Stepper.currentAbsolute, (hc.ran i).current]
    exact ⟨Int.le_trans hnow.1 hc.heads.le,
      hon.le_endTick hu (hon.isNext hu hin hc.heads.next) hend⟩

end Fleet

end BlockStep
