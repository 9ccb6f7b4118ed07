import Mathlib.Data.Finset.Sort
import BlockStep.Proofs.Epochs

namespace BlockStep.Timeline

section Edges

variable {α : Type} [ExactScalar α] {begin max : α} {outputs : List α}

def timesInside (begin max : α) (outputs : List α) : Finset α :=
  outputs.toFinset.filter fun a => begin < a ∧ a < max

/-- The scale factors at which epochs meet, with those of both ends. -/
def edgeTimes (begin max : α) (outputs : List α) : List α :=
  begin :: (timesInside begin max outputs).sort ++ [max]

theorem mem_foldl_insertEdge {y : α} {xs : List α} :
    y ∈ outputs.foldl (fun as a => insertEdge a as) xs ↔ y ∈ outputs ∨ y ∈ xs := by
  induction outputs generalizing xs with
  | nil => simp
  | cons a as ih => rw [List.foldl_cons, ih, mem_insertEdge, List.mem_cons, or_left_comm, or_assoc]

theorem mem_inner {a : α} : a ∈ inner begin max outputs ↔ a ∈ timesInside begin max outputs := by
  rw [inner, mem_foldl_insertEdge, timesInside, Finset.mem_filter, List.mem_toFinset,
    List.mem_filter, isInside_iff, or_iff_left List.not_mem_nil]

theorem inner_eq_sort (begin max : α) (outputs : List α) :
    inner begin max outputs = (timesInside begin max outputs).sort := by
  have hsorted := (isInner_inner begin max outputs).1
  have hfinset : (inner begin max outputs).toFinset = timesInside begin max outputs := by
    ext a
    rw [List.mem_toFinset, mem_inner]
  have hnodup : (inner begin max outputs).Nodup := hsorted.imp ne_of_lt
  rw [← hfinset]
  exact ((List.toFinset_sort (· ≤ ·) hnodup).2 (hsorted.imp le_of_lt)).symm

theorem edgeTimes_eq (begin max : α) (outputs : List α) :
    edgeTimes begin max outputs = begin :: inner begin max outputs ++ [max] := by
  rw [inner_eq_sort, edgeTimes]

theorem length_edgeTimes (begin max : α) (outputs : List α) :
    (edgeTimes begin max outputs).length = (timesInside begin max outputs).card + 2 := by
  simp [edgeTimes]

end Edges

variable {α : Type} [ExactScalar α] {t : Timeline α}

/-- A map that ascends, evenly inside each epoch, and passes the logarithms of `edges`. -/
structure RunsThrough (t : Timeline α) (edges : List α) : Prop where
  strictMono : StrictMono t.logA
  at_edge : ∀ (k : Nat) (h : k < edges.length), t.logA (k * t.timebase) = Scalar.log edges[k]
  even : ∀ tick ticks : Int, 0 ≤ ticks → tick + ticks ≤ (tick.fdiv t.timebase + 1) * t.timebase →
    t.logA (tick + ticks) - t.logA tick = t.length (Scalar.ofInt ticks) (tick.fdiv t.timebase)

/-- The whole ticks in a length are the most that fit into it, up to an epoch. -/
structure Inverts (t : Timeline α) (epoch : Int) : Prop where
  isGreatest : ∀ x, 0 ≤ x → IsGreatest
    {k : Int | 0 ≤ k ∧ k ≤ t.timebase ∧ t.length (Scalar.ofInt k) epoch ≤ x} (t.stepIn x epoch)
  of_neg : ∀ x, x < 0 → t.stepIn x epoch = 0
  monotone : Monotone fun x => t.stepIn x epoch
  stepIn_length : ∀ k, 0 ≤ k → k ≤ t.timebase → t.stepIn (t.length (Scalar.ofInt k) epoch) epoch = k

namespace IsClock

theorem logA_nearest (h : t.IsClock) {e tick : Int} (hstart : e * t.timebase ≤ tick)
    (hstop : tick ≤ (e + 1) * t.timebase) :
    t.logA tick = t.edge (t.nearest e) +
      ((tick - t.nearest e * t.timebase : Int) : α) * t.interval e := by
  have htb := h.timebase_pos
  by_cases hin : 0 ≤ e ∧ e < t.epochs
  · obtain ⟨n, rfl⟩ := Int.eq_ofNat_of_zero_le hin.1
    have hn : n < t.epochs := Int.ofNat_lt.1 hin.2
    rw [nearest_of_lt hn]
    exact h.logA_eq hn hstart hstop
  · -- outside the run the end of an epoch is near the same epoch as its other ticks
    have hnear : t.nearest (tick.fdiv t.timebase) = t.nearest e := by
      rcases hstop.lt_or_eq with hlt | heq
      · rw [fdiv_eq htb hstart hlt]
      · have hnext : tick < (e + 1 + 1) * t.timebase := by
          rw [heq, add_one_mul (e + 1)]
          exact lt_add_of_pos_right _ htb
        rw [fdiv_eq htb heq.ge hnext, nearest, nearest]
        split <;> split <;> omega
    simp only [logA, hnear, ExactScalar.ofInt_eq]
    rw [← interval_nearest t (tick.fdiv t.timebase), hnear, interval_nearest]

theorem logA_add_sub (h : t.IsClock) {tick ticks : Int} (h0 : 0 ≤ ticks)
    (hstop : tick + ticks ≤ (tick.fdiv t.timebase + 1) * t.timebase) :
    t.logA (tick + ticks) - t.logA tick = ticks * t.interval (tick.fdiv t.timebase) := by
  have hstart := fdiv_mul_le h.timebase_pos tick
  rw [h.logA_nearest (hstart.trans (le_add_of_nonneg_right h0)) hstop,
    h.logA_nearest hstart ((le_add_of_nonneg_right h0).trans hstop)]
  push_cast
  ring

theorem strictMono_logA (h : t.IsClock) : StrictMono t.logA := by
  apply strictMono_int_of_lt_succ
  intro tick
  have hstep := h.logA_add_sub zero_le_one (lt_fdiv_mul h.timebase_pos tick)
  rw [Int.cast_one, one_mul] at hstep
  have hpos := h.interval_pos (tick.fdiv t.timebase)
  rwa [← hstep, sub_pos] at hpos

theorem logA_edge (h : t.IsClock) {k : Nat} (hk : k ≤ t.epochs) :
    t.logA (k * t.timebase) = t.edge k := by
  have htb := h.timebase_pos
  rcases hk.lt_or_eq with hlt | rfl
  · have hstop : (k : Int) * t.timebase ≤ (k + 1) * t.timebase := by linarith
    rw [h.logA_eq hlt le_rfl hstop, sub_self, Int.cast_zero, zero_mul, add_zero]
  · -- the end of the run is the end of its last epoch
    obtain ⟨e, he⟩ := Nat.exists_eq_succ_of_ne_zero h.epochs_pos.ne'
    have hlast : e < t.epochs := by omega
    have hend : (t.epochs : Int) * t.timebase = (e + 1) * t.timebase := by
      rw [he]
      rfl
    have hstart : (e : Int) * t.timebase ≤ (e + 1) * t.timebase := by linarith
    have hall : ((e : Int) + 1) * t.timebase - e * t.timebase = t.timebase := by ring
    rw [hend, h.logA_eq hlast hstart le_rfl, hall, ← h.edge_succ e hlast, he]

theorem length_ofInt (t : Timeline α) (k epoch : Int) :
    t.length (Scalar.ofInt k) epoch = k * t.interval epoch := by
  rw [Timeline.length, ExactScalar.ofInt_eq]

theorem le_of_mul_le (h : t.IsClock) {epoch k j : Int} {x : α} (hk : k * t.interval epoch ≤ x)
    (hx : x < (j + 1) * t.interval epoch) : k ≤ j := by
  have hless : (k : α) < ((j + 1 : Int) : α) := by
    rw [Int.cast_add, Int.cast_one]
    exact lt_of_mul_lt_mul_right (hk.trans_lt hx) (h.interval_pos epoch).le
  exact Int.lt_add_one_iff.1 (Int.cast_lt.1 hless)

variable [Scalar.HasWholes α]

theorem isGreatest_stepIn (h : t.IsClock) (epoch : Int) {x : α} (hx : 0 ≤ x) : IsGreatest
    {k : Int | 0 ≤ k ∧ k ≤ t.timebase ∧ t.length (Scalar.ofInt k) epoch ≤ x}
    (t.stepIn x epoch) := by
  have htb := h.timebase_pos
  obtain ⟨j, hj, hle, hlt⟩ := stepIn_spec h x epoch
  have hzero : ((0 : Int) : α) * t.interval epoch ≤ x := by rwa [Int.cast_zero, zero_mul]
  have hj0 : 0 ≤ j := h.le_of_mul_le hzero hlt
  have hcut : t.stepIn x epoch ≤ j := by omega
  have hfits : (t.stepIn x epoch : α) * t.interval epoch ≤ j * t.interval epoch :=
    mul_le_mul_of_nonneg_right (Int.cast_le.2 hcut) (h.interval_pos epoch).le
  constructor
  · rw [Set.mem_ofPred_eq, length_ofInt]
    exact ⟨by omega, by omega, hfits.trans hle⟩
  · intro k hk
    rw [Set.mem_ofPred_eq, length_ofInt] at hk
    have hkj : k ≤ j := h.le_of_mul_le hk.2.2 hlt
    omega

theorem stepIn_of_neg (h : t.IsClock) (epoch : Int) {x : α} (hx : x < 0) :
    t.stepIn x epoch = 0 := by
  obtain ⟨j, hj, hle, -⟩ := stepIn_spec h x epoch
  have hneg : (j : α) < 0 := by
    by_contra hge
    have hnonneg := mul_nonneg (not_lt.1 hge) (h.interval_pos epoch).le
    exact absurd (hnonneg.trans hle) (not_le.2 hx)
  have hj0 : j < 0 := Int.cast_lt_zero.1 hneg
  have htb := h.timebase_pos
  omega

theorem stepIn_mono (h : t.IsClock) (epoch : Int) {x y : α} (hxy : x ≤ y) :
    t.stepIn x epoch ≤ t.stepIn y epoch := by
  obtain ⟨j, hj, hle, -⟩ := stepIn_spec h x epoch
  obtain ⟨k, hk, -, hlt⟩ := stepIn_spec h y epoch
  have hjk : j ≤ k := h.le_of_mul_le (hle.trans hxy) hlt
  omega

theorem stepIn_length (h : t.IsClock) (epoch : Int) {k : Int} (h0 : 0 ≤ k) (hk : k ≤ t.timebase) :
    t.stepIn (t.length (Scalar.ofInt k) epoch) epoch = k := by
  have hpos := h.interval_pos epoch
  have hx : 0 ≤ t.length (Scalar.ofInt k) epoch := by
    rw [length_ofInt]
    exact mul_nonneg (Int.cast_nonneg h0) hpos.le
  obtain ⟨hmem, hmost⟩ := h.isGreatest_stepIn epoch hx
  apply le_antisymm
  · have hle := hmem.2.2
    rw [length_ofInt t (t.stepIn _ _), length_ofInt t k, mul_le_mul_iff_left₀ hpos] at hle
    rw [length_ofInt]
    exact Int.cast_le.1 hle
  · exact hmost ⟨h0, hk, le_rfl⟩

theorem inverts (h : t.IsClock) (epoch : Int) : t.Inverts epoch where
  isGreatest _ hx := h.isGreatest_stepIn epoch hx
  of_neg _ hx := h.stepIn_of_neg epoch hx
  monotone _ _ hxy := h.stepIn_mono epoch hxy
  stepIn_length _ h0 hk := h.stepIn_length epoch h0 hk

end IsClock

variable {begin max : α} {outputs : List α} {timebase : Int}

theorem edge_ofEdges {edges : List α} {k : Nat} (h : k < edges.length) :
    (ofEdges edges timebase).edge k = edges[k] := by
  simp [edge, ofEdges, h]

/-- The clock of a run has an epoch more than there are different output times inside the run. -/
theorem clock_of_run [Scalar.HasWholes α] (h0 : 0 < begin) (h : begin < max) (outputs : List α)
    (htb : 0 < timebase)
    (hfits : ((timesInside begin max outputs).card + 1) * timebase ≤ Word.greatest) :
    ∃ t, make begin max outputs timebase = .ok t ∧ t.timebase = timebase ∧
      t.epochs = (timesInside begin max outputs).card + 1 ∧
      t.RunsThrough (edgeTimes begin max outputs) ∧ ∀ epoch, t.Inverts epoch := by
  have horder : HasOrder begin max := ⟨by rwa [ExactScalar.zero_eq], h⟩
  have hepochs : (ofEdges ((edgeTimes begin max outputs).map Scalar.log) timebase).epochs =
      (timesInside begin max outputs).card + 1 := by
    rw [epochs_ofEdges, List.length_map, length_edgeTimes]
    rfl
  have hmake : make begin max outputs timebase = _ :=
    make_eq _ horder (inner_eq_sort begin max outputs) (by
    rw [endTick]
    change (((ofEdges ((edgeTimes begin max outputs).map Scalar.log) timebase).epochs : Int) *
      timebase ≤ _)
    rw [hepochs]
    exact_mod_cast hfits)
  have hclock := (isClock_of_make hmake htb).1
  refine ⟨_, hmake, rfl, hepochs, ?_, hclock.inverts⟩
  constructor
  case strictMono => exact hclock.strictMono_logA
  case at_edge =>
    intro k hk
    have hedge := length_edgeTimes begin max outputs
    have hlast : k ≤ (ofEdges ((edgeTimes begin max outputs).map Scalar.log) timebase).epochs := by
      omega
    rw [hclock.logA_edge hlast, edge_ofEdges (by rwa [List.length_map]), List.getElem_map]
    rfl
  case even =>
    intro tick ticks hticks hstop
    rw [hclock.logA_add_sub hticks hstop, Timeline.length, ExactScalar.ofInt_eq]

theorem clock_of_run_sample : (timesInside (1 : Rat) 8 [4, 2, 4, 9, 1]).card = 2 ∧
    ∃ t, make (1 : Rat) 8 [4, 2, 4, 9, 1] 8 = .ok t ∧ t.epochs = 3 ∧ StrictMono t.logA ∧
      t.logA 16 = 3 ∧ t.logA (-8) < t.logA 0 ∧ t.stepIn (t.length (Scalar.ofInt 5) 1) 1 = 5 ∧
      t.stepIn (-1) 1 = 0 := by
  have hcard : (timesInside (1 : Rat) 8 [4, 2, 4, 9, 1]).card = 2 := by decide +kernel
  have hedges : edgeTimes (1 : Rat) 8 [4, 2, 4, 9, 1] = [1, 2, 4, 8] := by
    rw [edgeTimes_eq]
    decide +kernel
  have hfits : (((timesInside (1 : Rat) 8 [4, 2, 4, 9, 1]).card + 1) * 8 : Int) ≤
      Word.greatest := by
    rw [hcard]
    decide
  obtain ⟨t, hmake, htb, hepochs, hruns, hinverts⟩ :=
    clock_of_run one_pos (by norm_num) [4, 2, 4, 9, 1] (by decide) hfits
  rw [hcard] at hepochs
  rw [hedges] at hruns
  refine ⟨hcard, t, hmake, hepochs, hruns.strictMono, ?_, hruns.strictMono (by decide), ?_, ?_⟩
  · have hedge := hruns.at_edge 2 (by decide)
    rw [htb] at hedge
    rw [show (16 : Int) = ((2 : Nat) : Int) * 8 from rfl, hedge]
    decide +kernel
  · exact (hinverts 1).stepIn_length 5 (by decide) (by rw [htb]; decide)
  · exact (hinverts 1).of_neg (-1) (by norm_num)

end BlockStep.Timeline
