import BlockStep.Proofs.Epochs
import BlockStep.KickSource

namespace BlockStep.KickTable

variable {α : Type} [ExactScalar α]

section Grid

variable {a b x : α} {count : Nat} {edges : List α}

theorem mem_spread_iff : x ∈ spread a b count ↔
    ∃ i : Nat, i < count ∧ x = (i : α) * ((b - a) / (count : α)) + a := by
  simp [spread, ExactScalar.ofInt_eq, eq_comm]

theorem bounds_of_mem_spread (hab : a < b) (h : x ∈ spread a b count) : a ≤ x ∧ x < b := by
  obtain ⟨i, hi, rfl⟩ := mem_spread_iff.1 h
  have hcount : (0 : α) < count := Nat.cast_pos.2 (by omega)
  have hstep : 0 < (b - a) / (count : α) := div_pos (sub_pos.2 hab) hcount
  have hnonneg : 0 ≤ (i : α) * ((b - a) / (count : α)) := mul_nonneg (Nat.cast_nonneg i) hstep.le
  have hpart : (i : α) * ((b - a) / (count : α)) < b - a := calc
    (i : α) * ((b - a) / (count : α)) < count * ((b - a) / (count : α)) :=
      mul_lt_mul_of_pos_right (Nat.cast_lt.2 hi) hstep
    _ = b - a := mul_div_cancel₀ _ hcount.ne'
  constructor
  · exact le_add_of_nonneg_left hnonneg
  · exact lt_sub_iff_add_lt.1 hpart

theorem pairwise_spread (hab : a < b) (hcount : 0 < count) :
    (spread a b count).Pairwise (· < ·) := by
  have hstep : 0 < (b - a) / (count : α) := div_pos (sub_pos.2 hab) (Nat.cast_pos.2 hcount)
  rw [spread, List.pairwise_map]
  apply List.pairwise_lt_range.imp
  intro i j hij
  simp only [ExactScalar.ofInt_eq, Int.cast_natCast]
  exact add_lt_add_left (mul_lt_mul_of_pos_right (Nat.cast_lt.2 hij) hstep) a

theorem head?_spread (a b : α) (hcount : 0 < count) : (spread a b count).head? = some a := by
  obtain ⟨n, rfl⟩ := Nat.exists_eq_succ_of_ne_zero hcount.ne'
  simp [spread, List.range_succ_eq_map, ExactScalar.ofInt_eq]

theorem gridOf_singleton (count : Nat) (a : α) : gridOf count [a] = [a] := rfl

theorem gridOf_cons_cons (count : Nat) (a b : α) (rest : List α) :
    gridOf count (a :: b :: rest) = spread a b count ++ gridOf count (b :: rest) := rfl

theorem le_of_mem_gridOf (h : (a :: edges).Pairwise (· < ·)) (hx : x ∈ gridOf count (a :: edges)) :
    a ≤ x := by
  induction edges generalizing a with
  | nil =>
    rw [gridOf_singleton, List.mem_singleton] at hx
    exact hx.ge
  | cons b rest ih =>
    obtain ⟨ha, hrest⟩ := List.pairwise_cons.1 h
    have hab : a < b := ha b List.mem_cons_self
    rw [gridOf_cons_cons, List.mem_append] at hx
    cases hx with
    | inl hx => exact (bounds_of_mem_spread hab hx).1
    | inr hx => exact hab.le.trans (ih hrest hx)

theorem pairwise_gridOf (hcount : 0 < count) (h : (a :: edges).Pairwise (· < ·)) :
    (gridOf count (a :: edges)).Pairwise (· < ·) := by
  induction edges generalizing a with
  | nil => exact List.pairwise_singleton _ a
  | cons b rest ih =>
    obtain ⟨ha, hrest⟩ := List.pairwise_cons.1 h
    have hab : a < b := ha b List.mem_cons_self
    rw [gridOf_cons_cons, List.pairwise_append]
    refine ⟨pairwise_spread hab hcount, ih hrest, ?_⟩
    intro x hx y hy
    exact (bounds_of_mem_spread hab hx).2.trans_le (le_of_mem_gridOf hrest hy)

theorem length_gridOf (count : Nat) (a : α) (edges : List α) :
    (gridOf count (a :: edges)).length = edges.length * count + 1 := by
  induction edges generalizing a with
  | nil => rw [gridOf_singleton, List.length_nil, zero_mul, List.length_singleton]
  | cons b rest ih =>
    rw [gridOf_cons_cons, List.length_append, length_spread, ih, List.length_cons]
    ring

theorem head?_gridOf (hcount : 0 < count) (a : α) (edges : List α) :
    (gridOf count (a :: edges)).head? = some a := by
  cases edges with
  | nil => rfl
  | cons b rest => rw [gridOf_cons_cons, List.head?_append, head?_spread a b hcount, Option.some_or]

theorem getLast?_gridOf (count : Nat) (a : α) (edges : List α) :
    (gridOf count (a :: edges)).getLast? = (a :: edges).getLast? := by
  induction edges generalizing a with
  | nil => rfl
  | cons b rest ih =>
    rw [gridOf_cons_cons, List.getLast?_append, ih, List.getLast?_cons_cons]
    cases hlast : (b :: rest).getLast? with
    | none => simp at hlast
    | some c => rfl

theorem mem_gridOf (hcount : 0 < count) (hx : x ∈ edges) : x ∈ gridOf count edges := by
  induction edges with
  | nil => cases hx
  | cons a edges ih =>
    cases List.mem_cons.1 hx with
    | inl he =>
      rw [he]
      exact List.mem_of_head? (head?_gridOf hcount a edges)
    | inr hx =>
      cases edges with
      | nil => cases hx
      | cons b rest => exact List.mem_append_right _ (ih hx)

end Grid

/-- Running sums under positive heights ascend. -/
theorem pairwise_trapezoids (total : α) {xs ys : List α} (hlen : xs.length = ys.length)
    (hxs : xs.Pairwise (· < ·)) (hys : ∀ y ∈ ys, 0 < y) :
    (trapezoids total xs ys).Pairwise (· < ·) ∧ ∀ z ∈ trapezoids total xs ys, total ≤ z := by
  induction xs generalizing total ys with
  | nil => exact ⟨List.pairwise_singleton _ _, fun z hz => (List.mem_singleton.1 hz).ge⟩
  | cons x xs ih =>
    match xs, ys with
    | [], _ => exact ⟨List.pairwise_singleton _ _, fun z hz => (List.mem_singleton.1 hz).ge⟩
    | x' :: xs, [] => cases hlen
    | x' :: xs, [y] => simp at hlen
    | x' :: xs, y :: y' :: ys =>
      obtain ⟨hx, hxs⟩ := List.pairwise_cons.1 hxs
      have hwidth : 0 < x' - x := sub_pos.2 (hx x' List.mem_cons_self)
      have hheight : 0 < y' + y := add_pos (hys y' (by simp)) (hys y (by simp))
      have htwo : (0 : α) < 2.0 := ExactScalar.ofScientific_pos (by norm_num)
      have hmore : total < total + (x' - x) * (y' + y) / 2.0 :=
        lt_add_of_pos_right _ (div_pos (mul_pos hwidth hheight) htwo)
      obtain ⟨hsorted, hleast⟩ := ih (total + (x' - x) * (y' + y) / 2.0)
        (Nat.succ_injective hlen) hxs fun z hz => hys z (List.mem_cons_of_mem y hz)
      rw [trapezoids]
      constructor
      · apply List.pairwise_cons.2
        exact ⟨fun z hz => hmore.trans_le (hleast z hz), hsorted⟩
      · intro z hz
        cases List.mem_cons.1 hz with
        | inl he => exact he.ge
        | inr hz => exact hmore.le.trans (hleast z hz)

structure Ascends (xs ys : Array α) : Prop where
  two_le : 2 ≤ xs.size
  point_lt : ∀ i j, i < j → j < xs.size → xs.getD i 0.0 < xs.getD j 0.0
  height_lt : ∀ i j, i < j → j < xs.size → ys.getD i 0.0 < ys.getD j 0.0

theorem lastAtMost_spec {xs : Array α} {x : α} {lo hi : Nat} (hlt : lo < hi)
    (hlo : xs.getD lo 0.0 ≤ x) (hhi : x < xs.getD hi 0.0) :
    lastAtMost xs x lo hi < hi ∧ xs.getD (lastAtMost xs x lo hi) 0.0 ≤ x ∧
      x < xs.getD (lastAtMost xs x lo hi + 1) 0.0 := by
  fun_induction lastAtMost xs x lo hi with
  | case1 lo hi hwide mid hmid ih => exact ih (by omega) hmid hhi
  | case2 lo hi hwide mid hmid ih =>
    obtain ⟨hless, hrest⟩ := ih (by omega) hlo (not_le.1 hmid)
    exact ⟨by omega, hrest⟩
  | case3 lo hi hnarrow =>
    have hnext : hi = lo + 1 := by omega
    rw [hnext] at hhi
    exact ⟨hlt, hlo, hhi⟩

def segment (xs ys : Array α) (j : Nat) (x : α) : α :=
  (ys.getD (j + 1) 0.0 - ys.getD j 0.0) / (xs.getD (j + 1) 0.0 - xs.getD j 0.0) *
    (x - xs.getD j 0.0) + ys.getD j 0.0

theorem between_eq (xs ys : Array α) (j : Nat) (x : α) :
    between (xs.getD j 0.0) (ys.getD j 0.0) (xs.getD (j + 1) 0.0) (ys.getD (j + 1) 0.0) x =
      segment xs ys j x := by
  simp only [between, Scalar.isNaN_exact, Bool.not_false, if_true, segment]
  split
  next h => rw [(ExactScalar.beq_iff _ x).1 h, sub_self, mul_zero, zero_add]
  · rfl

theorem segment_left (xs ys : Array α) (j : Nat) :
    segment xs ys j (xs.getD j 0.0) = ys.getD j 0.0 := by
  rw [segment, sub_self, mul_zero, zero_add]

namespace Ascends

variable {xs ys : Array α} {x x' : α}

theorem height_le (h : Ascends xs ys) {i j : Nat} (hij : i ≤ j) (hj : j < xs.size) :
    ys.getD i 0.0 ≤ ys.getD j 0.0 := by
  cases hij.eq_or_lt with
  | inl he => rw [he]
  | inr hlt => exact (h.height_lt i j hlt hj).le

theorem point_le (h : Ascends xs ys) {i j : Nat} (hij : i ≤ j) (hj : j < xs.size) :
    xs.getD i 0.0 ≤ xs.getD j 0.0 := by
  cases hij.eq_or_lt with
  | inl he => rw [he]
  | inr hlt => exact (h.point_lt i j hlt hj).le

theorem segment_right (h : Ascends xs ys) {j : Nat} (hj : j + 1 < xs.size) :
    segment xs ys j (xs.getD (j + 1) 0.0) = ys.getD (j + 1) 0.0 := by
  have hrun := sub_pos.2 (h.point_lt j (j + 1) (Nat.lt_succ_self j) hj)
  rw [segment, div_mul_cancel₀ _ hrun.ne', sub_add_cancel]

theorem segment_strictMono (h : Ascends xs ys) {j : Nat} (hj : j + 1 < xs.size) :
    StrictMono (segment xs ys j) := by
  have hrise := sub_pos.2 (h.height_lt j (j + 1) (Nat.lt_succ_self j) hj)
  have hrun := sub_pos.2 (h.point_lt j (j + 1) (Nat.lt_succ_self j) hj)
  intro x x' hlt
  exact add_lt_add_left (mul_lt_mul_of_pos_left (sub_lt_sub_right hlt _) (div_pos hrise hrun)) _

theorem exists_segment (h : Ascends xs ys) (hfirst : xs.getD 0 0.0 ≤ x)
    (hlast : x < xs.getD (xs.size - 1) 0.0) : ∃ j, j + 1 < xs.size ∧ xs.getD j 0.0 ≤ x ∧
      x < xs.getD (j + 1) 0.0 ∧ interpolate xs ys x = segment xs ys j x := by
  have hwide := h.two_le
  obtain ⟨hless, hlow, hhigh⟩ := lastAtMost_spec (by omega) hfirst hlast
  refine ⟨lastAtMost xs x 0 (xs.size - 1), by omega, hlow, hhigh, ?_⟩
  simp only [interpolate, Scalar.isNaN_exact, Bool.false_eq_true, if_false,
    if_neg (not_lt.2 hfirst), if_neg (not_le.2 hlast), between_eq]

theorem first_lt_last (h : Ascends xs ys) : xs.getD 0 0.0 < xs.getD (xs.size - 1) 0.0 := by
  have hsize := h.two_le
  exact h.point_lt 0 (xs.size - 1) (by omega) (by omega)

theorem interpolate_of_le (h : Ascends xs ys) (hx : x ≤ xs.getD 0 0.0) :
    interpolate xs ys x = ys.getD 0 0.0 := by
  rcases hx.lt_or_eq with hlt | rfl
  · simp only [interpolate, Scalar.isNaN_exact, Bool.false_eq_true, if_false, if_pos hlt]
  · obtain ⟨j, hj, hlow, -, heq⟩ := h.exists_segment le_rfl h.first_lt_last
    have hzero : j = 0 := by
      by_contra hpos
      exact absurd hlow (not_le.2 (h.point_lt 0 j (by omega) (by omega)))
    rw [heq, hzero, segment_left]

theorem interpolate_of_ge (h : Ascends xs ys) (hx : xs.getD (xs.size - 1) 0.0 ≤ x) :
    interpolate xs ys x = ys.getD (xs.size - 1) 0.0 := by
  have hfirst : ¬ x < xs.getD 0 0.0 := not_lt.2 (h.first_lt_last.le.trans hx)
  simp only [interpolate, Scalar.isNaN_exact, Bool.false_eq_true, if_false, if_neg hfirst,
    if_pos hx]

theorem interpolate_lt_inside (h : Ascends xs ys) (hfirst : xs.getD 0 0.0 ≤ x) (hlt : x < x')
    (hlast : x < xs.getD (xs.size - 1) 0.0) : interpolate xs ys x < interpolate xs ys x' := by
  obtain ⟨j, hj, hlow, hhigh, heq⟩ := h.exists_segment hfirst hlast
  have hbelow : segment xs ys j x < ys.getD (j + 1) 0.0 := by
    rw [← h.segment_right hj]
    exact h.segment_strictMono hj hhigh
  rw [heq]
  by_cases hend : xs.getD (xs.size - 1) 0.0 ≤ x'
  · rw [h.interpolate_of_ge hend]
    exact hbelow.trans_le (h.height_le (by omega) (by omega))
  · obtain ⟨k, hk, hlow', hhigh', heq'⟩ := h.exists_segment (hfirst.trans hlt.le) (not_le.1 hend)
    have habove : ys.getD k 0.0 ≤ segment xs ys k x' := by
      rw [← segment_left xs ys k]
      exact (h.segment_strictMono hk).monotone hlow'
    rw [heq']
    rcases lt_trichotomy j k with hjk | rfl | hkj
    · exact (hbelow.trans_le (h.height_le (by omega) (by omega))).trans_le habove
    · exact h.segment_strictMono hj hlt
    · have hback : x' < x := hhigh'.trans_le ((h.point_le (by omega) (by omega)).trans hlow)
      exact absurd hback (not_lt.2 hlt.le)

theorem interpolate_lt (h : Ascends xs ys) (hlt : x < x') (hlast : x < xs.getD (xs.size - 1) 0.0)
    (hfirst : xs.getD 0 0.0 < x') : interpolate xs ys x < interpolate xs ys x' := by
  rcases le_total (xs.getD 0 0.0) x with hx | hx
  · exact h.interpolate_lt_inside hx hlt hlast
  · -- up to the first point the line is level
    rw [h.interpolate_of_le hx, ← h.interpolate_of_le le_rfl]
    exact h.interpolate_lt_inside le_rfl hfirst h.first_lt_last

theorem interpolate_mono (h : Ascends xs ys) (hle : x ≤ x') :
    interpolate xs ys x ≤ interpolate xs ys x' := by
  rcases hle.eq_or_lt with rfl | hlt
  · exact le_rfl
  by_cases hlast : x < xs.getD (xs.size - 1) 0.0
  · by_cases hfirst : xs.getD 0 0.0 < x'
    · exact (h.interpolate_lt hlt hlast hfirst).le
    · rw [h.interpolate_of_le (not_lt.1 hfirst), h.interpolate_of_le (hle.trans (not_lt.1 hfirst))]
  · rw [h.interpolate_of_ge (not_lt.1 hlast), h.interpolate_of_ge ((not_lt.1 hlast).trans hle)]

end Ascends

end BlockStep.KickTable
