import BlockStep.Proofs.Joint
import BlockStep.Proofs.Slot

namespace BlockStep

namespace Ranks

variable {m : Nat}

/-- The joint value of ticks. -/
def least (v : Ranks m Int) : Int := (others v).foldl min (first v)

/-- The joint value of counts. -/
def total (v : Ranks m Int) : Int := (others v).foldl (· + ·) (first v)

theorem mem_first_or_others {β : Type} {v : Ranks m β} {t : β} :
    t = first v ∨ t ∈ others v ↔ ∃ i, t = v i := by
  constructor
  · rintro (rfl | ht)
    · exact ⟨0, rfl⟩
    · obtain ⟨i, rfl⟩ := List.mem_ofFn.1 ht
      exact ⟨i.succ, rfl⟩
  · rintro ⟨i, rfl⟩
    cases i using Fin.cases with
    | zero => exact .inl rfl
    | succ i => exact .inr (List.mem_ofFn.2 ⟨i, rfl⟩)

theorem least_le (v : Ranks m Int) (i : Fin (m + 1)) : least v ≤ v i :=
  (Registry.isLeast_foldl_min (others v) (first v)).2 (mem_first_or_others.2 ⟨i, rfl⟩)

theorem exists_eq_least (v : Ranks m Int) : ∃ i, least v = v i :=
  mem_first_or_others.1 (Registry.isLeast_foldl_min (others v) (first v)).1

/-- The least over all ranks is the least of what each rank has its least of. -/
theorem isLeast_least {v : Ranks m Int} {S : Ranks m (Set Int)} (h : ∀ i, IsLeast (S i) (v i)) :
    IsLeast {t | ∃ i, t ∈ S i} (least v) := by
  constructor
  · obtain ⟨i, hi⟩ := exists_eq_least v
    rw [hi]
    exact ⟨i, (h i).1⟩
  · rintro t ⟨i, ht⟩
    exact Int.le_trans (least_le v i) ((h i).2 ht)

theorem foldl_add (is : List Int) (i : Int) : is.foldl (· + ·) i = i + Registry.sum is := by
  induction is generalizing i with
  | nil => simp
  | cons j js ih =>
    rw [List.foldl_cons, ih, Registry.sum_cons]
    omega

theorem total_eq (v : Ranks m Int) : total v = Registry.sum (List.ofFn v) := by
  rw [total, foldl_add, List.ofFn_succ, Registry.sum_cons, first, others]

theorem sum_eq_zero {is : List Int} (h : ∀ i ∈ is, 0 ≤ i) (hs : Registry.sum is = 0) :
    ∀ i ∈ is, i = 0 := by
  have hnonneg (js : List Int) (hj : ∀ i ∈ js, 0 ≤ i) : 0 ≤ Registry.sum js := by
    induction js with
    | nil => exact Int.le_refl 0
    | cons j js ih =>
      have := hj j List.mem_cons_self
      have := ih fun i hi => hj i (List.mem_cons_of_mem j hi)
      rw [Registry.sum_cons]
      omega
  induction is with
  | nil => exact fun i hi => absurd hi List.not_mem_nil
  | cons j js ih =>
    have h0 := h j List.mem_cons_self
    have hjs : ∀ i ∈ js, 0 ≤ i := fun i hi => h i (List.mem_cons_of_mem j hi)
    have hsum := hnonneg js hjs
    rw [Registry.sum_cons] at hs
    intro i hi
    rcases List.mem_cons.1 hi with rfl | hi
    · omega
    · exact ih hjs (by omega) i hi

theorem eq_zero_of_total {v : Ranks m Int} (h : ∀ i, 0 ≤ v i) (ht : total v = 0) (i : Fin (m + 1)) :
    v i = 0 := by
  rw [total_eq] at ht
  refine sum_eq_zero ?_ ht (v i) (List.mem_ofFn.2 ⟨i, rfl⟩)
  intro j hj
  obtain ⟨i, rfl⟩ := List.mem_ofFn.1 hj
  exact h i

end Ranks

namespace Joint

variable {α σ : Type} [Scalar α] {m : Nat} {A E : Fault → Prop} {v : Ranks m Int} {s : Ranks m σ}
  {Q : Ranks m Int → Ranks m σ → Prop}

theorem leastTick (h : Q (fun _ => Ranks.least v) s) :
    Joint A E (fun i => (Act.reduce .leastTick (v i : Int) : Act α σ Int)) s Q := Joint.reduce h

theorem faultCount (h : Q (fun _ => Ranks.total v) s) :
    Joint A E (fun i => (Act.reduce .faultCount (v i : Int) : Act α σ Int)) s Q := Joint.reduce h

end Joint

end BlockStep
