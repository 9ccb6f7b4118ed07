import BlockStep.Proofs.Desire
import BlockStep.Proofs.Occupancy

namespace BlockStep

variable {α : Type} {n : Nat}

/-- A particle has a place in the tables of `n` bins. -/
def Particle.Fits (n : Nat) (p : Particle α) : Prop :=
  0 ≤ p.bin ∧ p.bin < n ∧ Kind.Exists p.kind

namespace Registry

theorem sum_map_add {β : Type} (xs : List β) (f g : β → Int) :
    sum (xs.map fun x => f x + g x) = sum (xs.map f) + sum (xs.map g) := by
  induction xs with
  | nil => rfl
  | cons x xs ih =>
    simp only [List.map_cons, sum_cons, ih]
    omega

theorem sum_map_zero {β : Type} (xs : List β) : sum (xs.map fun _ => 0) = 0 := by
  induction xs with
  | nil => rfl
  | cons x xs ih => rw [List.map_cons, sum_cons, ih]; rfl

theorem sum_range_ite {m : Nat} {i : Int} (h0 : 0 ≤ i) (h : i < m) :
    sum ((List.range m).map fun b : Nat => if i = (b : Int) then 1 else 0) = 1 := by
  induction m with
  | zero => omega
  | succ m ih =>
    rw [List.range_succ, List.map_append, sum_append, List.map_singleton, sum_cons, sum_nil]
    by_cases hi : i < m
    · rw [ih hi, if_neg (by omega)]
      rfl
    · have hz : (List.range m).map (fun b : Nat => if i = (b : Int) then (1 : Int) else 0) =
          (List.range m).map fun _ => 0 := by
        apply List.map_congr_left
        intro b hb
        have := List.mem_range.1 hb
        rw [if_neg (by omega)]
      rw [hz, sum_map_zero, if_pos (by omega)]
      rfl

theorem sum_filter_map {β : Type} (q : β → Bool) (xs : List β) (f : β → Int) :
    sum ((xs.filter q).map f) = sum (xs.map fun x => if q x then f x else 0) := by
  induction xs with
  | nil => rfl
  | cons x xs ih =>
    rw [List.map_cons, sum_cons, ← ih]
    by_cases hq : q x
    · rw [List.filter_cons_of_pos hq, List.map_cons, sum_cons, if_pos hq]
    · rw [List.filter_cons_of_neg hq, if_neg hq, Int.zero_add]

/-- Particles counted by the values of a key below `m` are all counted once. -/
theorem sum_countP {β : Type} (ps : List β) (q : β → Bool) (key : β → Int) {m : Nat}
    (h : ∀ p ∈ ps, 0 ≤ key p ∧ key p < m) :
    sum ((List.range m).map fun b : Nat =>
      ((ps.countP fun p => q p && key p == (b : Int) : Nat) : Int)) = ps.countP q := by
  induction ps with
  | nil =>
    simp only [List.countP_nil, Int.natCast_zero]
    exact sum_map_zero _
  | cons p ps ih =>
    have hp := h p List.mem_cons_self
    have rest := ih fun p' hp' => h p' (List.mem_cons_of_mem p hp')
    have hsplit : (fun b : Nat =>
        (((p :: ps).countP fun p => q p && key p == (b : Int) : Nat) : Int)) = fun b : Nat =>
        ((ps.countP fun p => q p && key p == (b : Int) : Nat) : Int) +
          if q p then (if key p = (b : Int) then 1 else 0) else 0 := by
      funext b
      rw [List.countP_cons, Int.natCast_add]
      cases q p <;> by_cases hk : key p = (b : Int) <;> simp [hk]
    rw [hsplit, sum_map_add, rest, List.countP_cons]
    cases hq : q p with
    | true =>
      simp only [if_true]
      rw [sum_range_ite hp.1 hp.2]
      rfl
    | false =>
      simp only [Bool.false_eq_true, if_false]
      rw [sum_map_zero]
      rfl

theorem toList_ofFn (f : Nat → Int) :
    (Vector.ofFn fun b : Fin n => f b.val).toList = (List.range n).map f := by
  apply List.ext_getElem
  · simp
  · intro b hb hb'
    simp

namespace Counts

variable {r : Registry n} {store : Store α}

theorem total_eq (h : r.Counts store) (hf : ∀ p ∈ store, p.Fits n) : r.total = store.size := by
  have hs := sum_countP store.toList (fun _ => true) (·.bin) (m := n) fun p hp =>
    ⟨(hf p (Array.mem_toList_iff.1 hp)).1, (hf p (Array.mem_toList_iff.1 hp)).2.1⟩
  simp only [Bool.true_and, List.countP_true] at hs
  rw [Registry.total, h.total, toList_ofFn fun b => countIn store b]
  rw [← Array.length_toList]
  simpa only [countIn, ← Array.countP_toList] using hs

theorem kindSum_eq (h : r.Counts store) (hf : ∀ p ∈ store, p.Fits n) :
    (Vector.ofFn fun b : Fin n => sum (r.byKind.toList.map (·.get b))) = r.count := by
  rw [h.total, h.kinds]
  congr 1
  funext b
  have hs := sum_countP store.toList (fun p => p.bin == (b.val : Int)) (·.kind) (m := 6) fun p hp =>
    (hf p (Array.mem_toList_iff.1 hp)).2.2
  rw [countIn, ← Array.countP_toList, ← hs, ← toList_ofFn (n := 6)]
  congr 1
  apply List.ext_getElem
  · simp
  · intro k hk hk'
    simp [countOf, Vector.get, Bool.and_comm]

theorem kindTotals_eq (h : r.Counts store) (hf : ∀ p ∈ store, p.Fits n) :
    r.kindTotals = store.kindTotals := by
  rw [kindTotals, Store.kindTotals, h.kinds]
  apply List.ext_getElem
  · simp [Kind.count]
  · intro k hk hk'
    have hs := sum_countP store.toList (fun p => p.kind == (k : Int)) (·.bin) (m := n) fun p hp =>
      ⟨(hf p (Array.mem_toList_iff.1 hp)).1, (hf p (Array.mem_toList_iff.1 hp)).2.1⟩
    rw [← toList_ofFn (n := n)] at hs
    simpa [countOf] using hs

theorem check_ok (h : r.Counts store) (hf : ∀ p ∈ store, p.Fits n) :
    r.check store.size (some store.kindTotals) = .ok () := by
  rw [check, if_neg (absurd (h.total_eq hf)), if_neg (absurd (h.kindSum_eq hf))]
  exact if_pos (h.kindTotals_eq hf)

end Counts

/-- A count succeeds if and only if all bins and kinds are in range. -/
theorem recount_cases (r : Registry n) (store : Store α) :
    (∃ r', r.recount store = (r', .ok (r'.due store)) ∧ r'.Counts store ∧ r'.active = r.active ∧
      ∀ p ∈ store, p.Fits n) ∨
    ∃ r' e, r.recount store = (r', .error e) ∧ e.isPlain ∧ ¬ ∀ p ∈ store, p.Fits n := by
  simp only [recount]
  by_cases hb : (store.toList.map (·.bin)).any fun b => !decide (r.HasBin b)
  · right
    rw [if_pos hb]
    refine ⟨r, _, rfl, rfl, fun hf => ?_⟩
    rw [List.any_map, List.any_eq_true] at hb
    obtain ⟨p, hp, hout⟩ := hb
    have hp' := hf p (Array.mem_toList_iff.1 hp)
    simp [HasBin, hp'.1, hp'.2.1] at hout
  · rw [if_neg hb]
    by_cases hk : store.any fun p => !decide (Kind.Exists p.kind)
    · right
      rw [if_pos hk]
      refine ⟨_, _, rfl, rfl, fun hf => ?_⟩
      rw [Array.any_eq_true'] at hk
      obtain ⟨p, hp, hout⟩ := hk
      simp [(hf p hp).2.2] at hout
    · left
      rw [if_neg hk]
      refine ⟨_, rfl, ⟨rfl, rfl⟩, rfl, fun p hp => ?_⟩
      have hbin : r.HasBin p.bin := Decidable.byContradiction fun hn =>
        hb (List.any_eq_true.2 ⟨p.bin, List.mem_map.2
          ⟨p, Array.mem_toList_iff.2 hp, rfl⟩, by simpa using hn⟩)
      have hkind : Kind.Exists p.kind := Decidable.byContradiction fun hn =>
        hk (Array.any_eq_true'.2 ⟨p, hp, by simpa using hn⟩)
      exact ⟨hbin.1, hbin.2, hkind⟩

end Registry

end BlockStep
