namespace BlockStep

abbrev Keyed (β : Type) := List (String × β)

namespace Keyed

variable {β : Type}

/-- The entry under a name. -/
def lookup (name : String) : Keyed β → Option β
  | [] => none
  | (k, v) :: rest => if k = name then some v else lookup name rest

/-- The entries with one set: in its place if it is there, else at the end. -/
def put (name : String) (value : β) : Keyed β → Keyed β
  | [] => [(name, value)]
  | (k, v) :: rest => if k = name then (k, value) :: rest else (k, v) :: put name value rest

/-- The entries with one changed if it is there. -/
def adjust (name : String) (change : β → β) : Keyed β → Keyed β
  | [] => []
  | (k, v) :: rest => if k = name then (k, change v) :: rest else (k, v) :: adjust name change rest

def names (entries : Keyed β) : List String := entries.map (·.1)

/-- The entries of a list in which later entries of a name replace earlier ones. -/
def ofList (entries : List (String × β)) : Keyed β :=
  entries.foldl (fun es e => put e.1 e.2 es) []

/-- The entries in the order of their names. -/
def sorted (entries : Keyed β) : Keyed β := entries.mergeSort fun a b => !(b.1 < a.1)

theorem lookup_put_self (name : String) (value : β) (entries : Keyed β) :
    lookup name (put name value entries) = some value := by
  induction entries with
  | nil => simp [put, lookup]
  | cons e rest ih =>
    by_cases h : e.1 = name
    · simp [put, lookup, h]
    · simp [put, lookup, h, ih]

theorem lookup_put_of_ne {name other : String} (h : other ≠ name) (value : β) (entries : Keyed β) :
    lookup other (put name value entries) = lookup other entries := by
  induction entries with
  | nil => simp [put, lookup, Ne.symm h]
  | cons e rest ih =>
    obtain ⟨k, v⟩ := e
    by_cases hk : k = name
    · subst hk
      simp [put, lookup, Ne.symm h]
    · simp [put, lookup, hk, ih]

theorem put_of_lookup {name : String} {value : β} {entries : Keyed β}
    (h : lookup name entries = some value) : put name value entries = entries := by
  induction entries with
  | nil => cases h
  | cons e rest ih =>
    obtain ⟨k, v⟩ := e
    rw [lookup] at h
    rw [put]
    split at h
    next hk =>
      cases h
      rw [if_pos hk]
    next hk => rw [if_neg hk, ih h]

theorem lookup_adjust_self (name : String) (change : β → β) (entries : Keyed β) :
    lookup name (adjust name change entries) = (lookup name entries).map change := by
  induction entries with
  | nil => rfl
  | cons e rest ih =>
    by_cases h : e.1 = name
    · simp [adjust, lookup, h]
    · simp [adjust, lookup, h, ih]

theorem lookup_adjust_of_ne {name other : String} (h : other ≠ name) (change : β → β)
    (entries : Keyed β) : lookup other (adjust name change entries) = lookup other entries := by
  induction entries with
  | nil => rfl
  | cons e rest ih =>
    obtain ⟨k, v⟩ := e
    by_cases hk : k = name
    · subst hk
      simp [adjust, lookup, Ne.symm h]
    · simp [adjust, lookup, hk, ih]

@[simp] theorem names_adjust (name : String) (change : β → β) (entries : Keyed β) :
    (adjust name change entries).names = entries.names := by
  induction entries with
  | nil => rfl
  | cons e rest ih =>
    by_cases h : e.1 = name
    · simp [adjust, names, h]
    · simpa [adjust, names, h] using ih

theorem lookup_eq_none_iff {name : String} (entries : Keyed β) :
    lookup name entries = none ↔ name ∉ entries.names := by
  induction entries with
  | nil => simp [lookup, names]
  | cons e rest ih =>
    by_cases h : e.1 = name
    · simp [lookup, names, h]
    · simp only [names] at ih
      simp [lookup, names, h, ih, Ne.symm h]

section

variable {name : String} {value : β} {entries : Keyed β}

theorem put_of_not_mem (value : β) (h : name ∉ entries.names) :
    put name value entries = entries ++ [(name, value)] := by
  induction entries with
  | nil => rfl
  | cons e rest ih =>
    rw [names, List.map_cons, List.mem_cons, not_or] at h
    rw [put, if_neg (Ne.symm h.1), ih h.2, List.cons_append]

theorem names_put_of_not_mem (value : β) (h : name ∉ entries.names) :
    (put name value entries).names = entries.names ++ [name] := by
  rw [put_of_not_mem value h, names, List.map_append]
  rfl

theorem foldl_put_of_nodup (entries : Keyed β) {others : Keyed β}
    (h : (entries ++ others).names.Nodup) :
    others.foldl (fun es e => put e.1 e.2 es) entries = entries ++ others := by
  induction others generalizing entries with
  | nil => exact (List.append_nil entries).symm
  | cons e rest ih =>
    have hnot : e.1 ∉ entries.names := by
      rw [names, List.map_append, List.map_cons] at h
      exact fun hmem => (List.nodup_append.1 h).2.2 _ hmem _ List.mem_cons_self rfl
    rw [List.append_cons] at h ⊢
    rw [List.foldl_cons, put_of_not_mem e.2 hnot]
    exact ih _ h

/-- Entries with different names replace nothing. -/
theorem ofList_of_nodup (h : entries.names.Nodup) : ofList entries = entries :=
  foldl_put_of_nodup [] h

theorem lookup_map {γ : Type} (f : β → γ) (name : String) (entries : Keyed β) :
    lookup name (entries.map fun e => (e.1, f e.2)) = (lookup name entries).map f := by
  induction entries with
  | nil => rfl
  | cons e rest ih =>
    rw [List.map_cons, lookup, lookup]
    split
    · rfl
    · exact ih

theorem lookup_of_mem (h : entries.names.Nodup) (hmem : (name, value) ∈ entries) :
    lookup name entries = some value := by
  induction entries with
  | nil => cases hmem
  | cons e rest ih =>
    rw [names, List.map_cons, List.nodup_cons] at h
    rcases List.mem_cons.1 hmem with rfl | hmem
    · exact if_pos rfl
    · have hne : e.1 ≠ name := fun he => h.1 (he ▸ List.mem_map_of_mem hmem)
      rw [lookup, if_neg hne, ih h.2 hmem]

end

end Keyed

end BlockStep
