import BlockStep.Proofs.Exact

namespace BlockStep.Timeline

section Nearest

variable {α : Type} {t : Timeline α}

theorem nearest_natCast (t : Timeline α) (e : Nat) : t.nearest e = min e (t.epochs - 1) := by
  rw [nearest, if_neg (by omega), Int.toNat_natCast]

theorem nearest_of_lt {e : Nat} (h : e < t.epochs) : t.nearest e = e := by
  rw [nearest_natCast]
  omega

theorem nearest_lt (h : 0 < t.epochs) (e : Int) : t.nearest e < t.epochs := by
  rw [nearest]
  split <;> omega

theorem nearest_nearest (t : Timeline α) (e : Int) : t.nearest (t.nearest e) = t.nearest e := by
  rw [nearest_natCast, nearest]
  split <;> omega

theorem fdiv_eq {timebase tick e : Int} (htb : 0 < timebase) (hle : e * timebase ≤ tick)
    (hlt : tick < (e + 1) * timebase) : tick.fdiv timebase = e := by
  rw [Int.fdiv_eq_ediv_of_nonneg _ htb.le]
  have hupper := Int.ediv_lt_of_lt_mul htb hlt
  have hlower := Int.le_ediv_of_mul_le htb hle
  omega

theorem fdiv_mul_le {timebase : Int} (htb : 0 < timebase) (tick : Int) :
    tick.fdiv timebase * timebase ≤ tick := by
  rw [Int.fdiv_eq_ediv_of_nonneg _ htb.le]
  exact Int.ediv_mul_le tick htb.ne'

theorem lt_fdiv_mul {timebase : Int} (htb : 0 < timebase) (tick : Int) :
    tick < (tick.fdiv timebase + 1) * timebase := by
  rw [Int.fdiv_eq_ediv_of_nonneg _ htb.le]
  exact Int.lt_ediv_add_one_mul_self tick htb

end Nearest

/-- The clock of a run of which the edges inside are known. -/
theorem make_eq {α : Type} [Scalar α] {begin max : α} {outputs : List α} {timebase : Int}
    (xs : List α) (h : HasOrder begin max) (hxs : inner begin max outputs = xs)
    (hend : (ofEdges ((begin :: xs ++ [max]).map Scalar.log) timebase).endTick ≤ Word.greatest) :
    make begin max outputs timebase =
      .ok (ofEdges ((begin :: xs ++ [max]).map Scalar.log) timebase) := by
  simp only [make, hxs]
  rw [if_pos h, if_neg (Int.not_lt.2 hend)]

section Lists

variable {α : Type} [ExactScalar α] {x : α} {xs : List α} {begin max : α}

theorem mem_insertEdge {y : α} : y ∈ insertEdge x xs ↔ y = x ∨ y ∈ xs := by
  induction xs with
  | nil => simp [insertEdge]
  | cons z zs ih =>
    rw [insertEdge]
    split
    · exact List.mem_cons
    next hxz =>
      split
      · rw [List.mem_cons, ih, List.mem_cons, or_left_comm]
      next hzx =>
        have heq : x = z := le_antisymm (not_lt.1 hzx) (not_lt.1 hxz)
        rw [heq, List.mem_cons, or_self_left]

theorem pairwise_insertEdge (h : xs.Pairwise (· < ·)) : (insertEdge x xs).Pairwise (· < ·) := by
  induction xs with
  | nil => exact List.pairwise_singleton _ x
  | cons z zs ih =>
    obtain ⟨hz, hzs⟩ := List.pairwise_cons.1 h
    rw [insertEdge]
    split
    next hxz =>
      apply List.pairwise_cons.2
      constructor
      · intro y hy
        cases List.mem_cons.1 hy with
        | inl he => rwa [he]
        | inr hy => exact hxz.trans (hz y hy)
      · exact h
    next hxz =>
      split
      next hzx =>
        apply List.pairwise_cons.2
        constructor
        · intro y hy
          cases mem_insertEdge.1 hy with
          | inl he => rwa [he]
          | inr hy => exact hz y hy
        · exact ih hzs
      · exact h

theorem isInside_iff {a : α} : isInside begin max a ↔ begin < a ∧ a < max := by
  rw [isInside, Bool.and_eq_true, decide_eq_true_iff, decide_eq_true_iff]

def IsInner (begin max : α) (xs : List α) : Prop :=
  xs.Pairwise (· < ·) ∧ ∀ a ∈ xs, begin < a ∧ a < max

theorem isInner_foldl (outputs : List α) (h : IsInner begin max xs)
    (ho : ∀ a ∈ outputs, begin < a ∧ a < max) :
    IsInner begin max (outputs.foldl (fun as a => insertEdge a as) xs) := by
  induction outputs generalizing xs with
  | nil => exact h
  | cons a as ih =>
    apply ih
    · constructor
      · exact pairwise_insertEdge h.1
      · intro y hy
        cases mem_insertEdge.1 hy with
        | inl he =>
          rw [he]
          exact ho a List.mem_cons_self
        | inr hy => exact h.2 y hy
    · exact fun y hy => ho y (List.mem_cons_of_mem a hy)

theorem isInner_inner (begin max : α) (outputs : List α) :
    IsInner begin max (inner begin max outputs) := by
  apply isInner_foldl
  · exact ⟨List.Pairwise.nil, fun a ha => absurd ha List.not_mem_nil⟩
  · intro a ha
    exact isInside_iff.1 (List.mem_filter.1 ha).2

theorem pairwise_edges (h : begin < max) (outputs : List α) :
    (begin :: inner begin max outputs ++ [max]).Pairwise (· < ·) := by
  obtain ⟨hsorted, hinside⟩ := isInner_inner begin max outputs
  rw [List.cons_append, List.pairwise_cons, List.pairwise_append]
  constructor
  · intro a ha
    cases List.mem_append.1 ha with
    | inl ha => exact (hinside a ha).1
    | inr ha => rwa [List.mem_singleton.1 ha]
  · constructor
    · exact hsorted
    · exact ⟨List.pairwise_singleton _ max, fun a ha b hb => by
        rw [List.mem_singleton.1 hb]
        exact (hinside a ha).2⟩

theorem pairwise_log (h : xs.Pairwise (· < ·)) (hpos : ∀ a ∈ xs, 0 < a) :
    (xs.map Scalar.log).Pairwise (· < ·) := by
  rw [List.pairwise_map]
  exact h.imp_of_mem fun ha _ hlt => ExactScalar.log_lt_log _ _ (hpos _ ha) hlt

theorem getElem?_gaps {e : Nat} {a b : α} (ha : xs[e]? = some a) (hb : xs[e + 1]? = some b) :
    (gaps xs)[e]? = some (b - a) := by
  induction xs generalizing e with
  | nil => cases ha
  | cons x xs ih =>
    cases xs with
    | nil => cases hb
    | cons y ys =>
      rw [gaps]
      cases e with
      | zero =>
        cases ha
        cases hb
        rfl
      | succ e => exact ih ha hb

end Lists

variable {α : Type} [ExactScalar α] {t : Timeline α}

/-- Epochs of evenly spread ticks that follow each other. -/
structure IsClock (t : Timeline α) : Prop where
  timebase_pos : 0 < t.timebase
  epochs_pos : 0 < t.epochs
  edge_succ : ∀ e : Nat, e < t.epochs → t.edge (e + 1) = t.edge e + (t.timebase : α) * t.interval e
  interval_pos : ∀ e : Int, 0 < t.interval e

theorem interval_nearest (t : Timeline α) (e : Int) : t.interval (t.nearest e) = t.interval e := by
  rw [interval, interval, nearest_nearest]

/-- Ascending edges and ticks make a clock. -/
theorem isClock_ofEdges {edges : List α} {timebase : Int} (h : edges.Pairwise (· < ·))
    (hlen : 2 ≤ edges.length) (htb : 0 < timebase) : (ofEdges edges timebase).IsClock := by
  have hcast : (0 : α) < (timebase : α) := Int.cast_pos.2 htb
  have hepochs := epochs_ofEdges edges timebase
  have hinterval (e : Nat) (he : e + 1 < edges.length) : (ofEdges edges timebase).interval e =
      (edges[e + 1] - edges[e]) / (timebase : α) := by
    have hgap := getElem?_gaps (List.getElem?_eq_getElem (by omega : e < edges.length))
      (List.getElem?_eq_getElem he)
    rw [interval, nearest_of_lt (by omega), ofEdges]
    simp [hgap, ExactScalar.ofInt_eq]
  constructor
  case timebase_pos => exact htb
  case epochs_pos => omega
  case edge_succ =>
    intro e he
    have hsucc : e + 1 < edges.length := by omega
    rw [hinterval e hsucc]
    have hedge (i : Nat) (hi : i < edges.length) : (ofEdges edges timebase).edge i = edges[i] := by
      simp [edge, ofEdges, hi]
    rw [hedge e (by omega), hedge (e + 1) hsucc]
    change _ = edges[e] + (timebase : α) * _
    rw [mul_div_cancel₀ _ hcast.ne']
    ring
  case interval_pos =>
    intro e
    have hlt := nearest_lt (t := ofEdges edges timebase) (by omega) e
    rw [← interval_nearest, hinterval ((ofEdges edges timebase).nearest e) (by omega)]
    have hless := List.pairwise_iff_getElem.1 h ((ofEdges edges timebase).nearest e) _ (by omega)
      (by omega) (Nat.lt_succ_self _)
    exact div_pos (sub_pos.2 hless) hcast

/-- The edges of a clock that is made ascend. -/
theorem exists_edges_of_make {begin max : α} {outputs : List α} {timebase : Int}
    (h : make begin max outputs timebase = .ok t) :
    ∃ edges : List α, edges.Pairwise (· < ·) ∧ 2 ≤ edges.length ∧ t = ofEdges edges timebase := by
  simp only [make] at h
  split at h
  next horder =>
    split at h
    · cases h
    · cases h
      have hzero : (0 : α) < begin := by
        rw [← ExactScalar.zero_eq]
        exact horder.1
      have hsorted := pairwise_edges horder.2 outputs
      have hpos : ∀ a ∈ begin :: inner begin max outputs ++ [max], 0 < a := by
        intro a ha
        rw [List.cons_append, List.mem_cons] at ha
        cases ha with
        | inl he => rwa [he]
        | inr ha => exact hzero.trans ((List.pairwise_cons.1 hsorted).1 a ha)
      exact ⟨_, pairwise_log hsorted hpos, by simp, rfl⟩
  · cases h

theorem isClock_of_make {begin max : α} {outputs : List α} {timebase : Int}
    (h : make begin max outputs timebase = .ok t) (htb : 0 < timebase) :
    t.IsClock ∧ t.timebase = timebase := by
  obtain ⟨edges, hsorted, hlen, rfl⟩ := exists_edges_of_make h
  exact ⟨isClock_ofEdges hsorted hlen htb, rfl⟩

namespace IsClock

/-- Inside an epoch and at its end `log a` is that of its edge and of the ticks from there. -/
theorem logA_eq (h : t.IsClock) {e : Nat} (he : e < t.epochs) {tick : Int}
    (hstart : e * t.timebase ≤ tick) (hstop : tick ≤ (e + 1) * t.timebase) :
    t.logA tick = t.edge e + ((tick - e * t.timebase : Int) : α) * t.interval e := by
  have htb := h.timebase_pos
  rcases hstop.lt_or_eq with hlt | heq
  · have hdiv : tick.fdiv t.timebase = e := fdiv_eq htb hstart hlt
    simp only [logA, hdiv, nearest_of_lt he, ExactScalar.ofInt_eq]
  · -- the end is the first tick of the next epoch
    have hdiv : tick.fdiv t.timebase = ((e + 1 : Nat) : Int) := by
      apply fdiv_eq htb
      · push_cast
        exact heq.ge
      · rw [heq]
        push_cast
        linarith
    simp only [logA, hdiv, ExactScalar.ofInt_eq]
    by_cases hnext : e + 1 < t.epochs
    · have hzero : tick - ((e + 1 : Nat) : Int) * t.timebase = 0 := by
        rw [heq]
        push_cast
        ring
      have hall : tick - e * t.timebase = t.timebase := by
        rw [heq]
        ring
      rw [nearest_of_lt hnext, hzero, hall, h.edge_succ e he, Int.cast_zero, zero_mul, add_zero]
    · -- behind the last epoch its ticks go on
      have hnear : t.nearest ((e + 1 : Nat) : Int) = e := by
        rw [nearest_natCast]
        omega
      rw [← interval_nearest t ((e + 1 : Nat) : Int), hnear]

/-- A stretch that ends in the epoch in which it starts has the length of its ticks. -/
theorem logA_sub (h : t.IsClock) {start stop : Int} (h0 : 0 ≤ start) (hle : start ≤ stop)
    (hend : stop ≤ t.endTick) (hstop : stop ≤ (start.fdiv t.timebase + 1) * t.timebase) :
    t.logA stop - t.logA start =
      ((stop - start : Int) : α) * t.interval (start.fdiv t.timebase) := by
  have htb := h.timebase_pos
  rcases hle.eq_or_lt with rfl | hlt
  · rw [sub_self, sub_self, Int.cast_zero, zero_mul]
  · obtain ⟨e, he⟩ := Int.eq_ofNat_of_zero_le (Int.fdiv_nonneg h0 htb.le)
    have hstart : e * t.timebase ≤ start := by
      rw [← he]
      exact fdiv_mul_le htb start
    have hepoch : e < t.epochs := by
      by_contra hge
      have hmul : (t.epochs : Int) * t.timebase ≤ e * t.timebase :=
        mul_le_mul_of_nonneg_right (by omega) htb.le
      rw [endTick] at hend
      omega
    rw [he] at hstop ⊢
    rw [h.logA_eq hepoch (hstart.trans hle) hstop, h.logA_eq hepoch hstart (hle.trans hstop)]
    push_cast
    ring

end IsClock

/-- The whole ticks in a length, between no tick and an epoch. -/
theorem stepIn_spec [Scalar.HasWholes α] (h : t.IsClock) (length : α) (epoch : Int) :
    ∃ k : Int, t.stepIn length epoch = min (max k 0) t.timebase ∧
      k * t.interval epoch ≤ length ∧ length < (k + 1) * t.interval epoch := by
  have hpos := h.interval_pos epoch
  obtain ⟨k, hk⟩ := ExactScalar.floor_eq (length / t.interval epoch)
  have hle := Scalar.HasWholes.floor_le (length / t.interval epoch)
  have hlt := Scalar.HasWholes.lt_floor_add_one (length / t.interval epoch)
  rw [hk] at hle hlt
  refine ⟨k, ?_, (le_div_iff₀ hpos).1 hle, (div_lt_iff₀ hpos).1 hlt⟩
  have hcut : min (max (k : α) 0) t.timebase = (min (max k 0) t.timebase : Int) := by
    push_cast
    rfl
  simp only [stepIn, ticksIn, hk, Scalar.isFinite_exact, if_true, ExactScalar.zero_eq,
    ExactScalar.ofInt_eq, Scalar.larger_exact, Scalar.lesser_exact]
  rw [hcut, Scalar.HasWholes.trunc_intCast]

end BlockStep.Timeline
