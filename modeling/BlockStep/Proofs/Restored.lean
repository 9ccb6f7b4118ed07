import BlockStep.Snapshot.Document

namespace BlockStep

section

variable {α β : Type}

theorem zipWith_zipWith_self (f g : α → β → β) (xs : List α) (ys : List β) :
    List.zipWith f xs (List.zipWith g xs ys) = List.zipWith (fun x y => f x (g x y)) xs ys := by
  induction xs generalizing ys with
  | nil => rfl
  | cons x xs ih =>
    cases ys with
    | nil => rfl
    | cons y ys => rw [List.zipWith_cons_cons, List.zipWith_cons_cons, List.zipWith_cons_cons, ih]

theorem zipWith_right {xs : List α} {ys : List β} (h : ys.length ≤ xs.length) :
    List.zipWith (fun _ y => y) xs ys = ys := by
  induction xs generalizing ys with
  | nil => rw [List.eq_nil_of_length_eq_zero (Nat.le_zero.1 h), List.zipWith_nil_right]
  | cons x xs ih =>
    cases ys with
    | nil => rfl
    | cons y ys => rw [List.zipWith_cons_cons, ih (Nat.le_of_succ_le_succ h)]

end

theorem Keyed.filter_ne_of_nodup {β : Type} {name : String} {value : β} {front back : Keyed β}
    (h : (front ++ (name, value) :: back).names.Nodup) :
    (front ++ (name, value) :: back).filter (fun e => e.1 != name) = front ++ back := by
  rw [names, List.map_append, List.map_cons, List.nodup_append, List.nodup_cons] at h
  have hfront : ∀ e ∈ front, e.1 != name := fun e he =>
    bne_iff_ne.2 (h.2.2 _ (List.mem_map_of_mem he) _ List.mem_cons_self)
  have hback : ∀ e ∈ back, e.1 != name := by
    intro e he
    rw [bne_iff_ne]
    rintro rfl
    exact h.2.1.1 (List.mem_map.2 ⟨e, he, rfl⟩)
  rw [List.filter_append, List.filter_cons_of_neg (by simp), List.filter_eq_self.2 hfront,
    List.filter_eq_self.2 hback]

namespace Given

variable {β γ : Type}

theorem eachCell_of_ok {f : β → Except Fault γ} {s : Shaped β} {cells : List γ}
    (h : s.cells.toList.map f = cells.map .ok) : eachCell f s = .ok ⟨s.shape, cells.toArray⟩ := by
  have hcells : ∀ (xs : List β) (ys : List γ), xs.map f = ys.map .ok → xs.mapM f = .ok ys := by
    intro xs
    induction xs with
    | nil =>
      rintro (_ | ⟨y, ys⟩) hmap
      · rfl
      · cases hmap
    | cons x xs ih =>
      rintro (_ | ⟨y, ys⟩) hmap
      · cases hmap
      · rw [List.map_cons, List.map_cons, List.cons.injEq] at hmap
        rw [List.mapM_cons, hmap.1, ih ys hmap.2]
        rfl
  have hmapM : s.cells.mapM f = .ok cells.toArray := by
    rw [← s.cells.toArray_toList, List.mapM_toArray, hcells _ _ h]
    rfl
  rw [eachCell, hmapM]
  rfl

theorem eachCell_word {shape : List Nat} {is : List Int} (h : ∀ i ∈ is, Word.Holds i) :
    eachCell word ⟨shape, (is.map Value.whole).toArray⟩ = .ok ⟨shape, is.toArray⟩ := by
  refine eachCell_of_ok ?_
  rw [List.map_map]
  exact List.map_congr_left fun i hi => if_pos (h i hi)

theorem reals_real (shape : List Nat) (xs : List Float) :
    reals ⟨shape, (xs.map Value.real).toArray⟩ = .ok ⟨shape, xs.toArray⟩ := by
  refine eachCell_of_ok ?_
  rw [List.map_map]
  rfl

end Given

namespace Column

variable {α : Type}

/-- The entry of a particle in a column is a word, if it is a whole number. -/
def Fits (p : Particle α) : Column α → Prop
  | whole get _ => Word.Holds (get p)
  | real .. | vector .. => True

instance (p : Particle α) (c : Column α) : Decidable (c.Fits p) :=
  match c with
  | whole get _ => inferInstanceAs (Decidable (Word.Holds (get p)))
  | real .. | vector .. => inferInstanceAs (Decidable True)

def copy (q p : Particle α) : Column α → Particle α
  | whole get set => set (get q) p
  | real get set => set (get q) p
  | vector get set => set (get q) p

theorem nodup_names : (all (α := α)).names.Nodup := by
  have hnames : (all (α := α)).names = (all (α := Unit)).names := rfl
  rw [hnames]
  decide +kernel

theorem filter_all : (all (α := α)).filter (fun e => e.1 != "kind") = all.take 1 ++ all.drop 2 := by
  have hall : all = all.take 1 ++ ("kind", .whole (·.kind) fun i p => { p with kind := i }) ::
      (all (α := α)).drop 2 := rfl
  have hnodup := nodup_names (α := α)
  rw [hall] at hnodup
  conv => lhs; rw [hall]
  exact Keyed.filter_ne_of_nodup hnodup

theorem write_read (s t : Store α) (c : Column α) :
    c.write t (c.read s) = (List.zipWith (fun q p => c.copy q p) s.toList t.toList).toArray := by
  cases c <;> simp only [read, write, copy, List.zipWith_map_left]

theorem size_write_read {s t : Store α} (h : t.size = s.size) (c : Column α) :
    (c.write t (c.read s)).size = s.size := by
  rw [write_read]
  simp [h]

theorem foldl_write_read {s t : Store α} (h : t.size = s.size) (cs : List (Column α)) :
    cs.foldl (fun t c => c.write t (c.read s)) t =
      (List.zipWith (fun q p => cs.foldl (fun p c => c.copy q p) p) s.toList t.toList).toArray := by
  induction cs generalizing t with
  | nil =>
    simp only [List.foldl_nil]
    rw [zipWith_right (by simp [h])]
  | cons c cs ih =>
    rw [List.foldl_cons, ih (size_write_read h c), write_read]
    simp only [zipWith_zipWith_self, List.foldl_cons]

theorem byThrees_flatMap (vs : List (Vec3 Float)) : byThrees (vs.flatMap Vec3.toList) = vs := by
  induction vs with
  | nil => rfl
  | cons v vs ih =>
    rw [List.flatMap_cons]
    exact congrArg (v :: ·) ih

theorem holds_of_fits {s : Store α} {get : Particle α → Int}
    {set : Int → Particle α → Particle α} (h : ∀ p ∈ s, (whole get set).Fits p) :
    ∀ i ∈ s.toList.map get, Word.Holds i := by
  intro i hi
  obtain ⟨p, hp, rfl⟩ := List.mem_map.1 hi
  exact h p (Array.mem_toList_iff.1 hp)

theorem cellsOf_array {s : Store Float} (c : Column Float) (h : ∀ p ∈ s, c.Fits p) :
    c.cellsOf (c.read s).array = .ok (c.read s) := by
  cases c with
  | whole get set =>
    rw [cellsOf, read, ColumnCells.array, Given.eachCell_word (holds_of_fits h)]
    rfl
  | real get set =>
    rw [cellsOf, read, ColumnCells.array, Given.reals_real]
    rfl
  | vector get set =>
    rw [cellsOf, read, ColumnCells.array, ← List.map_flatMap, Given.reals_real]
    exact congrArg (Except.ok ∘ ColumnCells.vectors) (byThrees_flatMap _)

theorem place_array {s t : Store Float} (hsize : t.size = s.size) (name : String)
    (c : Column Float) (h : ∀ p ∈ s, c.Fits p) :
    place t name c (c.read s).array = .ok (c.write t (c.read s)) := by
  have hshape : asRow (c.read s).array.shape = c.extents t.size := by
    cases c <;> simp [asRow, read, ColumnCells.array, extents, hsize]
  rw [place, cellsOf_array c h]
  exact if_pos hshape

end Column

structure Particle.IsStorable {α : Type} (p : Particle α) : Prop where
  kind : Kind.Exists p.kind
  fits : ∀ e ∈ Column.all, e.2.Fits p

namespace Store

variable {s : Store Float}

theorem lookup_arrays {e : String × Column Float} (h : e ∈ Column.all) :
    Keyed.lookup e.1 s.arrays = some (e.2.read s).array := by
  rw [arrays, Keyed.lookup_map (fun c => (Column.read s c).array),
    Keyed.lookup_of_mem Column.nodup_names h, Option.map_some]

theorem names_arrays : s.arrays.names = (Column.all (α := Float)).names := by
  rw [arrays, Keyed.names, List.map_map]
  rfl

theorem kindsOf_arrays (h : ∀ p ∈ s, p.IsStorable) :
    kindsOf (ColumnCells.wholes (s.toList.map (·.kind))).array =
      .ok (s.toList.map (·.kind)) := by
  have hkinds : ∀ i ∈ s.toList.map (·.kind), Kind.Exists i := by
    intro i hi
    obtain ⟨p, hp, rfl⟩ := List.mem_map.1 hi
    exact (h p (Array.mem_toList_iff.1 hp)).kind
  have hwords : ∀ i ∈ s.toList.map (·.kind), Word.Holds i :=
    Column.holds_of_fits fun p hp => (h p hp).fits _ (List.mem_cons_of_mem _ List.mem_cons_self)
  have hall : (Shaped.mk [(s.toList.map (·.kind)).length]
      (s.toList.map (·.kind)).toArray).all (fun k => decide (Kind.Exists k)) = true := by
    simp only [Shaped.all, List.all_toArray, List.all_eq_true, decide_eq_true_eq]
    exact hkinds
  rw [kindsOf, ColumnCells.array, Given.eachCell_word hwords]
  exact if_pos hall

theorem size_ofKinds (kinds : List Int) : (ofKinds kinds).size = kinds.length := by
  simp [ofKinds]

theorem writeColumn_arrays {t : Store Float} (hsize : t.size = s.size)
    (h : ∀ p ∈ s, p.IsStorable) {e : String × Column Float} (he : e ∈ Column.all) :
    writeColumn .ok s.arrays t e =
      .ok (if e.1 = "kind" then t else e.2.write t (e.2.read s)) := by
  rw [writeColumn, lookup_arrays he]
  dsimp only
  split
  · rfl
  · exact Column.place_array hsize e.1 e.2 fun p hp => (h p hp).fits e he

def written : List (Column Float) := (Column.all.filter fun e => e.1 != "kind").map (·.2)

theorem foldlM_writeColumn {es : List (String × Column Float)} (hes : ∀ e ∈ es, e ∈ Column.all)
    {t : Store Float} (hsize : t.size = s.size) (h : ∀ p ∈ s, p.IsStorable) :
    es.foldlM (writeColumn .ok s.arrays) t =
      .ok (((es.filter fun e => e.1 != "kind").map (·.2)).foldl
        (fun t c => c.write t (c.read s)) t) := by
  induction es generalizing t with
  | nil => rfl
  | cons e es ih =>
    have hrest : ∀ e ∈ es, e ∈ Column.all := fun e he => hes e (List.mem_cons_of_mem _ he)
    rw [List.foldlM_cons, writeColumn_arrays hsize h (hes e List.mem_cons_self), List.filter_cons]
    by_cases hkind : e.1 = "kind"
    · simp only [hkind, if_true, bne_self_eq_false, Bool.false_eq_true, if_false]
      exact ih hrest hsize
    · simp only [hkind, if_false, bne_iff_ne, ne_eq, not_false_eq_true, if_true, List.map_cons,
        List.foldl_cons]
      exact ih hrest (Column.size_write_read hsize e.2)

theorem foldl_copy_written (q p : Particle Float) :
    written.foldl (fun p c => c.copy q p) p = { q with kind := p.kind } := by
  rw [written, Column.filter_all]
  cases q
  cases p
  rfl

theorem foldl_write_ofKinds :
    written.foldl (fun t c => c.write t (c.read s)) (ofKinds (s.toList.map (·.kind))) = s := by
  rw [Column.foldl_write_read (by simp [size_ofKinds])]
  simp only [foldl_copy_written]
  refine Array.toList_inj.1 (List.ext_getElem ?_ fun i h₁ h₂ => ?_)
  · simp [ofKinds]
  · simp [ofKinds]

/-- A store comes back from its columns, with nothing to tell. -/
theorem ofArrays_arrays {σ : Type} (h : ∀ p ∈ s, p.IsStorable) :
    (ofArrays s.arrays : Act Float σ (Store Float)) = pure s := by
  have hkind : Keyed.lookup "kind" s.arrays =
      some (ColumnCells.wholes (s.toList.map (·.kind))).array :=
    lookup_arrays (e := ("kind", _)) (List.mem_cons_of_mem _ List.mem_cons_self)
  have hunknown : ((Keyed.sorted s.arrays).names.filter
      fun name => !(Column.all (α := Float)).names.contains name) = [] := by
    rw [List.filter_eq_nil_iff]
    intro name hname
    obtain ⟨e, he, rfl⟩ := List.mem_map.1 hname
    have hmem : e.1 ∈ s.arrays.names := List.mem_map_of_mem (List.mem_mergeSort.1 he)
    rw [names_arrays] at hmem
    simpa using hmem
  have hwritten : Column.all.foldlM (writeColumn .ok s.arrays)
      (ofKinds (s.toList.map (·.kind))) = .ok s := by
    rw [foldlM_writeColumn (fun e he => he) (by simp [size_ofKinds]) h]
    exact congrArg Except.ok foldl_write_ofKinds
  rw [ofArrays, ofNamed, hkind]
  simp only [bind, Except.bind, kindsOf_arrays h, hunknown, List.isEmpty_nil, Bool.not_true,
    Bool.false_eq_true, if_false]
  refine (Act.pure_bind _ _).trans ?_
  rw [hwritten]
  rfl

end Store

end BlockStep
