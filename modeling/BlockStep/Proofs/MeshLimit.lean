import BlockStep.Proofs.OnSchedule
import BlockStep.Proofs.Rational

namespace BlockStep

/-- Comparisons are an order on the numbers that are not undefined, and whole numbers of the size of
ticks are exact in it. -/
class Scalar.Ordered (α : Type) [Scalar α] : Prop where
  lt_irrefl : ∀ x : α, ¬ x < x
  lt_trans : ∀ x y z : α, x < y → y < z → x < z
  isNaN_zero : isNaN (0.0 : α) = false
  isNaN_ofInt : ∀ i, isNaN (ofInt i : α) = false
  isNaN_of_isFinite : ∀ x : α, isFinite x → isNaN x = false
  not_ofInt_lt_zero : ∀ i, 0 ≤ i → ¬ (ofInt i : α) < 0.0
  trunc_le : ∀ (x : α) (i : Int), 0 ≤ i → i ≤ pow2 Fault.mostBins → isNaN x = false →
    ¬ ofInt i < x → trunc x ≤ i

instance : Scalar.Ordered Rat where
  lt_irrefl _ := Rat.lt_irrefl
  lt_trans _ _ _ h h' :=
    Rat.not_le.1 fun hle => Rat.not_le.2 h (Rat.le_trans (Rat.le_of_lt h') hle)
  isNaN_zero := Scalar.isNaN_rat _
  isNaN_ofInt _ := Scalar.isNaN_rat _
  isNaN_of_isFinite x _ := Scalar.isNaN_rat x
  not_ofInt_lt_zero i h := by
    have hzero : (0.0 : Rat) = 0 := by decide +kernel
    rw [hzero]
    exact Rat.not_lt.2 (Rat.intCast_nonneg.2 h)
  trunc_le x i h0 _ _ h := by
    have hle : x.num * (1 : Nat) ≤ i * x.den := (Rat.le_iff x i).1 (Rat.not_lt.1 h)
    have hden : (0 : Int) < x.den := Int.natCast_pos.2 x.den_pos
    show x.num.tdiv x.den ≤ i
    by_cases hneg : 0 ≤ x.num
    · rw [Int.tdiv_eq_ediv_of_nonneg hneg]
      exact Int.ediv_le_of_le_mul hden (by omega)
    · have hpos := Int.tdiv_nonneg (show 0 ≤ -x.num by omega) (Int.le_of_lt hden)
      rw [Int.neg_tdiv] at hpos
      omega

variable {α : Type} [Scalar α] [Scalar.Ordered α] {m : Nat}

namespace Scalar

open Ordered

theorem trunc_cut_le {x : α} {i tb : Int} (h0 : 0 ≤ i) (hi : i ≤ pow2 Fault.mostBins)
    (hx : isNaN x = false) (h : ¬ ofInt i < x) : trunc (lesser (larger x 0.0) (ofInt tb)) ≤ i := by
  have hlarger : isNaN (larger x 0.0) = false ∧ ¬ ofInt i < larger x 0.0 := by
    rw [larger]
    split
    · exact ⟨isNaN_zero, not_ofInt_lt_zero i h0⟩
    · exact ⟨hx, h⟩
  rw [lesser]
  split
  next hlt =>
    refine trunc_le _ i h0 hi (isNaN_ofInt tb) fun hi => ?_
    exact hlarger.2 (lt_trans _ _ _ hi hlt)
  · exact trunc_le _ i h0 hi hlarger.1 hlarger.2

theorem trunc_cut_le_self {x : α} {tb : Int} (h0 : 0 ≤ tb) (htb : tb ≤ pow2 Fault.mostBins)
    (hx : isNaN x = false) : trunc (lesser (larger x 0.0) (ofInt tb)) ≤ tb := by
  have hlarger : isNaN (larger x 0.0) = false := by
    rw [larger]
    split
    · exact isNaN_zero
    · exact hx
  rw [lesser]
  split
  · exact trunc_le _ tb h0 htb (isNaN_ofInt tb) (lt_irrefl _)
  next hlt => exact trunc_le _ tb h0 htb hlarger hlt

end Scalar

namespace Criterion

open Scalar.Ordered in
theorem ticks_stepOf_le {s : StepConfig α} {t : Timeline α} {most epoch : Int} (h0 : 0 ≤ most)
    (hm : most ≤ pow2 Fault.mostBins) (length : α) :
    (stepOf s t most epoch length).ticks ≤ most := by
  simp only [stepOf, wholeTicks]
  generalize t.ticksIn _ epoch = x
  split
  · exact h0
  next hnan =>
    refine Scalar.trunc_cut_le h0 hm (Bool.eq_false_iff.2 hnan) ?_
    rw [Scalar.lower]
    split
    · exact lt_irrefl _
    next hlt => exact fun h => hlt (.inl h)

variable {c : Config α} {t : Timeline α} {i : Instant α} {most epoch : Int}

theorem ticks_wish_le (h0 : 0 ≤ most) (hm : most ≤ pow2 Fault.mostBins) (p : Particle α) :
    (wish c t i most epoch p).ticks ≤ most := by
  rw [wish, common?]
  split
  next d hd =>
    split at hd
    · cases hd
      exact h0
    · split at hd
      · cases hd
        exact Int.le_refl most
      · cases hd
  · exact ticks_stepOf_le h0 hm _

end Criterion

theorem MeshStep.ticksOf_le {c : Config α} {t : Timeline α} {f : TimeFactors α} {s : KindStats α}
    {epoch ticks : Int} (h0 : 0 ≤ t.timebase) (htb : t.timebase ≤ pow2 Fault.mostBins)
    (h : ticksOf c t f s epoch = .ok ticks) : ticks ≤ t.timebase := by
  apply ticksOf_le_of_stepIn h0 ?_ h
  intro length
  simp only [Timeline.stepIn]
  generalize t.ticksIn length epoch = x
  split
  next hfin => exact Scalar.trunc_cut_le_self h0 htb (Scalar.Ordered.isNaN_of_isFinite x hfin)
  · split
    · exact h0
    · exact Int.le_refl _

namespace Course

variable {u : Setup α} {mesh : MeshStep} {n : Nat} {c : Course α} {st : Ranks m (Store α)}

theorem Agreed.want_le (h : c.Agreed u n mesh st) (h0 : 0 ≤ c.most)
    (hm : c.most ≤ pow2 Fault.mostBins) {i : Fin (m + 1)} {p : Particle α} (hp : p ∈ st i)
    (hd : c.isDue n p) : c.want u p ≤ c.most :=
  Int.le_trans (h.want_le_wish hp hd) (Criterion.ticks_wish_le h0 hm p)

omit [Scalar.Ordered α] in
/-- Without tree gravity every due particle asks for the mesh step. -/
theorem Agreed.want_eq (h : c.Agreed u n mesh st) (htree : u.config.step.treeGravity = false)
    (hne : c.most ≠ 0) (hstep : TickCount.IsStep c.most) {i : Fin (m + 1)} {p : Particle α}
    (hp : p ∈ st i) (hd : c.isDue n p) : c.want u p = c.most := by
  have hwish (q : Particle α) : (c.wish u q).ticks = c.most := by
    simp [wish, Criterion.wish, Criterion.common?, hne, htree]
  by_cases he : u.config.step.equalSteps
  · obtain ⟨l, hl, -, hmem, hleast⟩ := h.equal he
    rw [want, hl, Option.getD_some]
    have hle := hleast (.inr ⟨i, p, hp, hd, rfl⟩)
    rw [hwish] at hle
    rcases hmem with hseed | ⟨j, q, -, -, hq⟩
    · have hword : c.most ≤ Assign.leastSeed := by
        rcases hstep with hz | ⟨b, hb, hb'⟩
        · exact absurd hz hne
        · have h62 : pow2 62 = 0x4000000000000000 := rfl
          have := pow2_le hb
          rw [hb', Assign.leastSeed, Word.greatest]
          omega
      omega
    · rw [hq, hwish]
  · rw [want, h.own he, Option.getD_none, hwish]

end Course

end BlockStep
