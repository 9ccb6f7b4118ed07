import BlockStep.Proofs.Slot
import BlockStep.Stepper

namespace BlockStep

variable {α : Type} {n : Nat}

open Stepper (Turn)

namespace Store

theorem getElem?_scatter_of_mem {β : Type} (s : Store α) (change : β → Particle α → Particle α)
    {places : List Nat} {values : List β} (hn : places.Nodup) {i : Nat} {v : β}
    (h : (i, v) ∈ places.zip values) :
    (s.scatter change places values)[i]? = s[i]?.map (change v) := by
  induction places generalizing s values with
  | nil => cases h
  | cons j js ih =>
    cases values with
    | nil => cases h
    | cons w ws =>
      obtain ⟨hj, hjs⟩ := List.nodup_cons.1 hn
      rcases List.mem_cons.1 h with he | h
      · cases he
        exact getElem?_scatter_cons s change i v ws hj
      · have hne : j ≠ i := by
          rintro rfl
          exact hj (List.of_mem_zip h).1
        have rest := ih (s.modify j (change w)) hjs h
        simpa [scatter, Array.getElem?_modify, hne] using rest

end Store

namespace Move

theorem gain_cons (m : Move) (ms : List Move) (b : Int) :
    gain (m :: ms) b = gain ms b + (if m.target = b then 1 else 0) -
      (if m.source = b then 1 else 0) := by
  simp only [gain, List.countP_cons, decide_eq_true_eq]
  split <;> split <;> omega

theorem gain_filter_changes (ms : List Move) (b : Int) :
    gain (ms.filter fun m => decide m.Changes) b = gain ms b := by
  induction ms with
  | nil => rfl
  | cons m ms ih =>
    rw [gain_cons, ← ih]
    by_cases h : m.Changes
    · rw [List.filter_cons_of_pos (by simpa using h), gain_cons]
    · rw [List.filter_cons_of_neg (by simpa using h)]
      have he : m.source = m.target := Decidable.not_not.1 h
      rw [he]
      split <;> omega

end Move

namespace Registry

def countWhere (store : Store α) (q : Int → Bool) (bin : Int) : Nat :=
  store.countP fun p => q p.kind && p.bin == bin

theorem countWhere_modify (store : Store α) (q : Int → Bool) (b target : Int) {i : Nat}
    {p : Particle α} (h : store[i]? = some p) :
    (countWhere (store.modify i fun p => { p with bin := target }) q b : Int) =
      countWhere store q b + (if q p.kind ∧ target = b then 1 else 0)
        - (if q p.kind ∧ p.bin = b then 1 else 0) := by
  obtain ⟨hi, hp⟩ := Array.getElem?_eq_some_iff.1 h
  have hset : (store.modify i fun p => { p with bin := target }) =
      store.set i { p with bin := target } := by
    apply Array.ext_getElem?
    intro j
    rw [Array.getElem?_modify, Array.getElem?_set]
    split
    next he => subst he; rw [h]; rfl
    · rfl
  have hpos : q p.kind ∧ p.bin = b → 0 < store.countP fun p => q p.kind && p.bin == b := by
    intro hq
    rw [Array.countP_pos_iff]
    exact ⟨p, Array.mem_of_getElem? h, by simpa using hq⟩
  rw [countWhere, countWhere, hset, Array.countP_set hi, hp]
  simp only [Bool.and_eq_true, beq_iff_eq]
  by_cases hq : q p.kind ∧ p.bin = b
  · have := hpos hq
    rw [if_pos hq, if_pos hq]
    split <;> omega
  · rw [if_neg hq, if_neg hq]
    split <;> omega

theorem countWhere_scatter (q : Int → Bool) (b : Int) (store : Store α) {ts : List (Turn α)}
    (hn : (ts.map (·.place)).Nodup) (hb : ∀ t ∈ ts, store[t.place]? = some t.before) :
    (countWhere (store.scatter (fun b p => { p with bin := b }) (ts.map (·.place))
      (ts.map (·.next.bin))) q b : Int) =
      countWhere store q b + Move.gain ((ts.map Turn.move).filter fun m => q m.kind) b := by
  induction ts generalizing store with
  | nil => simp [Store.scatter, Move.gain]
  | cons t ts ih =>
    obtain ⟨ht, hts⟩ := List.nodup_cons.1 hn
    have hmod := countWhere_modify store q b t.next.bin (hb t List.mem_cons_self)
    have rest := ih (store.modify t.place fun p => { p with bin := t.next.bin }) hts fun u hu => by
      have hne : t.place ≠ u.place := fun he => ht (List.mem_map.2 ⟨u, hu, he.symm⟩)
      rw [Array.getElem?_modify, if_neg hne]
      exact hb u (List.mem_cons_of_mem t hu)
    rw [List.map_cons, List.map_cons, Store.scatter, List.zip_cons_cons, List.foldl_cons,
      List.map_cons]
    rw [Store.scatter] at rest
    rw [rest, hmod]
    by_cases hq : q t.before.kind
    · rw [List.filter_cons_of_pos (by exact hq), Move.gain_cons]
      simp only [hq, true_and, Turn.move]
      omega
    · rw [List.filter_cons_of_neg (by exact hq)]
      simp [hq]

theorem countIn_eq (store : Store α) (b : Int) :
    countIn store b = countWhere store (fun _ => true) b := by
  simp [countIn, countWhere]

theorem countOf_eq (store : Store α) (k b : Int) :
    countOf store k b = countWhere store (· == k) b := rfl

theorem moved_ofFn (g : Nat → Int) (ms : List Move) :
    moved (Vector.ofFn fun b : Fin n => g b.val) ms =
      Vector.ofFn fun b => g b.val + Move.gain ms b.val := by
  apply Vector.ext
  intro b hb
  simp [getElem_moved]

theorem Counts.isCount {r : Registry n} {store : Store α} (h : r.Counts store) : r.isCount := by
  rw [Registry.isCount, Bool.and_eq_true, Vector.all_eq_true, Vector.all_eq_true]
  refine ⟨fun b hb => decide_eq_true ?_, fun k hk => ?_⟩
  · simp only [h.total, Vector.getElem_ofFn, countIn]
    omega
  · rw [Vector.all_eq_true]
    intro b hb
    apply decide_eq_true
    simp only [h.kinds, Vector.getElem_ofFn, countOf]
    omega

/-- The tables follow moves by which the numbers of particles change. -/
theorem Counts.moved {r : Registry n} {store store' : Store α} (h : r.Counts store) {ms : List Move}
    (hall : ∀ b : Nat, countIn store' b = countIn store b + Move.gain ms b)
    (hkind : ∀ k b : Nat, countOf store' k b =
      countOf store k b + Move.gain (ms.filter fun m => decide (m.kind = k)) b) :
    Counts { r with
      count := Registry.moved r.count ms
      byKind := Vector.ofFn fun k =>
        Registry.moved (r.byKind.get k) (ms.filter fun m => decide (m.kind = k.val)) } store' where
  total := by
    show Registry.moved r.count ms = _
    rw [h.total, moved_ofFn fun b => countIn store b]
    simp only [hall]
  kinds := by
    show (Vector.ofFn fun k => Registry.moved (r.byKind.get k) _) = _
    congr 1
    funext k
    have hk : r.byKind.get k = Vector.ofFn fun b => countOf store k.val b.val := by
      rw [h.kinds]
      exact Vector.getElem_ofFn k.isLt
    rw [hk, moved_ofFn fun b => countOf store k b]
    simp only [hkind]

/-- Moves between bins of the table, of kinds of the table, fail at most by leaving a bin with fewer
than no particles. -/
theorem migrate_of_inside (r : Registry n) {moves ms : List Move}
    (hms : moves.filter (fun m => decide m.Changes) = ms)
    (hin : ∀ m ∈ ms, r.HasBin m.source ∧ r.HasBin m.target ∧ Kind.Exists m.kind) :
    r.migrate moves =
      if ms.isEmpty then (r, .ok 0)
      else
        let r := { r with
          count := moved r.count ms
          byKind := Vector.ofFn fun k =>
            moved (r.byKind.get k) (ms.filter fun m => decide (m.kind = k.val)) }
        if r.isCount then (r, .ok ms.length) else (r, .error .negativeOccupancy) := by
  have hbins : ¬ ms.any fun m => !(decide (r.HasBin m.source) && decide (r.HasBin m.target)) := by
    rw [List.any_eq_true]
    rintro ⟨m, hm, hout⟩
    simp [(hin m hm).1, (hin m hm).2.1] at hout
  have hkinds : ¬ ms.any fun m => !decide (Kind.Exists m.kind) := by
    rw [List.any_eq_true]
    rintro ⟨m, hm, hout⟩
    simp [(hin m hm).2.2] at hout
  simp only [Registry.migrate, hms]
  rw [if_neg hbins, if_neg hkinds]

theorem Counts.migrate_ok {r : Registry n} {store store' : Store α} (h : r.Counts store)
    {moves ms : List Move} (hms : moves.filter (fun m => decide m.Changes) = ms)
    (hin : ∀ m ∈ ms, r.HasBin m.source ∧ r.HasBin m.target ∧ Kind.Exists m.kind)
    (hall : ∀ b : Nat, countIn store' b = countIn store b + Move.gain ms b)
    (hkind : ∀ k b : Nat, countOf store' k b =
      countOf store k b + Move.gain (ms.filter fun m => decide (m.kind = k)) b) :
    ∃ r' k, r.migrate moves = (r', .ok k) ∧ r'.Counts store' ∧ r'.active = r.active := by
  rw [r.migrate_of_inside hms hin]
  by_cases he : ms.isEmpty
  · obtain rfl := List.isEmpty_iff.1 he
    refine ⟨r, 0, if_pos rfl, ⟨h.total.trans ?_, h.kinds.trans ?_⟩, rfl⟩
    · simp only [hall, Move.gain, List.countP_nil, Int.sub_self, Int.add_zero]
    · simp only [hkind, Move.gain, List.filter_nil, List.countP_nil, Int.sub_self, Int.add_zero]
  · have hcounts := h.moved hall hkind
    rw [if_neg he]
    exact ⟨_, _, if_pos hcounts.isCount, hcounts, rfl⟩

/-- After the moves of turns the tables are those of the store that has moved. -/
theorem Counts.migrate {r : Registry n} {store : Store α} (h : r.Counts store) (ts : List (Turn α))
    (hn : (ts.map (·.place)).Nodup) (hb : ∀ t ∈ ts, store[t.place]? = some t.before)
    (hf : ∀ t ∈ ts, r.HasBin t.before.bin ∧ r.HasBin t.next.bin ∧ Kind.Exists t.before.kind) :
    ∃ r' k, r.migrate (ts.map Turn.move) = (r', .ok k) ∧
      r'.Counts (store.scatter (fun b p => { p with bin := b }) (ts.map (·.place))
        (ts.map (·.next.bin))) ∧ r'.active = r.active := by
  refine h.migrate_ok rfl ?_ ?_ ?_
  · intro m hm
    obtain ⟨t, ht, rfl⟩ := List.mem_map.1 (List.mem_filter.1 hm).1
    exact hf t ht
  · intro b
    have hw := countWhere_scatter (fun _ => true) b store hn hb
    rw [countIn_eq, countIn_eq, hw, Move.gain_filter_changes, List.filter_eq_self.2 fun _ _ => rfl]
  · intro k b
    have hw := countWhere_scatter (· == (k : Int)) b store hn hb
    rw [countOf_eq, countOf_eq, hw, List.filter_filter]
    simp only [Bool.and_comm (decide (_ = _))]
    rw [← List.filter_filter, Move.gain_filter_changes]
    rfl

end Registry

end BlockStep
