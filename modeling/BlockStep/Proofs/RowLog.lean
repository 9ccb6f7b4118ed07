import BlockStep.Proofs.Columns

namespace BlockStep

namespace History

variable {β : Type} {h : History β} {names keys : List String} {name : String}
  {records : List (Record β)} {record : Record β}

def fresh (names keys : List String) : List String := (keys.removeAll names).eraseDups

theorem mem_fresh : name ∈ fresh names keys ↔ name ∈ keys ∧ name ∉ names := by
  simp [fresh, List.removeAll]

theorem removeAll_append (keys names others : List String) :
    keys.removeAll (names ++ others) = (keys.removeAll names).removeAll others := by
  simp only [List.removeAll, List.filter_filter]
  apply List.filter_congr
  intro key _
  simp [Bool.and_comm]

theorem fresh_cons_of_mem (hmem : name ∈ names) (keys : List String) :
    fresh names (name :: keys) = fresh names keys := by
  have hc : ¬ names.contains name = false := by simpa using hmem
  rw [fresh, List.cons_removeAll, if_neg hc, fresh]

theorem fresh_cons_of_not_mem (hmem : name ∉ names) (keys : List String) :
    fresh names (name :: keys) = name :: fresh (names ++ [name]) keys := by
  have hc : names.contains name = false := by simpa using hmem
  rw [fresh, List.cons_removeAll, if_pos hc, List.eraseDups_cons, fresh, removeAll_append,
    List.removeAll_cons, List.removeAll_nil]

theorem fresh_eq_nil (h : ∀ key ∈ keys, key ∈ names) : fresh names keys = [] := by
  apply List.eq_nil_iff_forall_not_mem.2
  intro key hkey
  obtain ⟨hmem, hnot⟩ := mem_fresh.1 hkey
  exact hnot (h key hmem)

theorem fresh_append (names keys others : List String) :
    fresh names (keys ++ others) =
      fresh names keys ++ fresh (names ++ fresh names keys) others := by
  have hsame : (others.removeAll names).removeAll (keys.removeAll names) =
      (others.removeAll names).removeAll (fresh names keys) := by
    apply List.filter_congr
    intro key _
    simp [fresh]
  have hsplit : (keys ++ others).removeAll names = keys.removeAll names ++ others.removeAll names :=
    List.filter_append keys others
  rw [fresh, hsplit, List.eraseDups_append, hsame, ← removeAll_append]
  rfl

/-- The history has these columns and no others, each once, and holds these records; the records
name no other columns. -/
structure Logs (h : History β) (names : List String) (records : List (Record β)) : Prop extends
    h.Holds names records where
  names_eq : h.names = names
  nodup : names.Nodup
  named : ∀ record ∈ records, ∀ name ∈ record.names, name ∈ names

theorem logs_ofNames (hd : names.Nodup) : (ofNames names : History β).Logs names [] where
  toHolds := holds_ofNames names
  names_eq := by
    have hnames : Keyed.names (names.map fun name => (name, (#[] : Array (Option β)))) = names := by
      rw [Keyed.names, List.map_map]
      exact List.map_id names
    have hfold := Keyed.foldl_put_of_nodup [] (hnames.symm ▸ hd)
    rw [List.foldl_map] at hfold
    rw [History.names, ofNames, hfold]
    exact hnames
  nodup := hd
  named _ hmem := absurd hmem List.not_mem_nil

theorem entryOf_of_not_mem (hmem : name ∉ record.names) : entryOf name record = none := by
  rw [entryOf, (Keyed.lookup_eq_none_iff record).2 hmem]
  rfl

theorem names_foldl_extend (order : List String) (columns : Keyed (Array (Option β))) :
    (order.foldl (extend record) columns).names = columns.names := by
  induction order generalizing columns with
  | nil => rfl
  | cons name rest ih => rw [List.foldl_cons, ih, extend, Keyed.names_adjust]

theorem names_append (h : History β) (record : Record β) :
    (h.append record).names = (record.names.foldl withColumn h).names := by
  simp only [append, names, names_foldl_extend]

/-- A record with an entry for each of some names, empty where it has none. -/
def filled (names : List String) (record : Record β) : Record β :=
  names.map fun name => (name, entryOf name record)

theorem filled_self (hd : record.names.Nodup) : filled record.names record = record := by
  have hself : ∀ e ∈ record, (e.1, entryOf e.1 record) = e := by
    intro e he
    rw [entryOf, Keyed.lookup_of_mem hd he]
    rfl
  rw [filled, Keyed.names, List.map_map]
  exact (List.map_congr_left hself).trans (List.map_id record)

namespace Logs

/-- A column that comes later is empty for the records so far. -/
theorem withColumn (hl : h.Logs names records) (hmem : name ∉ names) :
    (h.withColumn name).Logs (names ++ [name]) records := by
  have hnone : Keyed.lookup name h.columns = none := by
    rw [Keyed.lookup_eq_none_iff]
    exact fun hm => hmem (hl.names_eq ▸ hm)
  have hempty : Array.replicate h.size none = (records.map (entryOf name)).toArray := by
    have hall : ∀ entry ∈ records.map (entryOf name), entry = none := by
      intro entry hentry
      obtain ⟨r, hr, rfl⟩ := List.mem_map.1 hentry
      exact entryOf_of_not_mem fun hm => hmem (hl.named r hr name hm)
    rw [List.eq_replicate_of_mem hall, List.length_map, hl.size, List.toArray_replicate]
  rw [History.withColumn, hnone]
  constructor
  case toHolds =>
    refine ⟨by rw [hl.order], hl.size, fun other hother => ?_⟩
    by_cases he : other = name
    · rw [he, Keyed.lookup_put_self, hempty]
    · have hold : other ∈ names := (List.mem_append.1 hother).resolve_right (by simpa using he)
      rw [Keyed.lookup_put_of_ne he, hl.lookup other hold]
  case names_eq =>
    rw [History.names, Keyed.names_put_of_not_mem _ ((Keyed.lookup_eq_none_iff _).1 hnone)]
    exact congrArg (· ++ [name]) hl.names_eq
  case nodup =>
    refine List.nodup_append.2 ⟨hl.nodup, List.pairwise_singleton _ name, ?_⟩
    rintro other hother _ hname rfl
    exact hmem (List.mem_singleton.1 hname ▸ hother)
  case named =>
    intro r hr other hother
    exact List.mem_append_left _ (hl.named r hr other hother)

theorem foldl_withColumn (hl : h.Logs names records) (keys : List String) :
    (keys.foldl History.withColumn h).Logs (names ++ fresh names keys) records := by
  induction keys generalizing h names with
  | nil => rwa [List.foldl_nil, fresh, List.nil_removeAll, List.eraseDups_nil, List.append_nil]
  | cons key rest ih =>
    rw [List.foldl_cons]
    by_cases hmem : key ∈ names
    · rw [hl.toHolds.withColumn hmem, fresh_cons_of_mem hmem]
      exact ih hl
    · rw [fresh_cons_of_not_mem hmem, List.append_cons]
      exact ih (hl.withColumn hmem)

theorem append (hl : h.Logs names records) (record : Record β) :
    (h.append record).Logs (names ++ fresh names record.names) (records ++ [record]) := by
  have hcolumns := hl.foldl_withColumn record.names
  have hnamed : ∀ name ∈ record.names, name ∈ names ++ fresh names record.names := by
    intro name hname
    rw [List.mem_append, mem_fresh]
    by_cases hold : name ∈ names
    · exact .inl hold
    · exact .inr ⟨hname, hold⟩
  have hsame : h.append record = (record.names.foldl History.withColumn h).append record := by
    simp only [History.append, hcolumns.toHolds.foldl_withColumn hnamed]
  constructor
  case toHolds =>
    rw [hsame]
    exact hcolumns.toHolds.append hcolumns.nodup hnamed
  case names_eq => rw [names_append, hcolumns.names_eq]
  case nodup => exact hcolumns.nodup
  case named =>
    intro r hr
    rcases List.mem_append.1 hr with hr | hr
    · exact hcolumns.named r hr
    · rw [List.mem_singleton.1 hr]
      exact hnamed

theorem foldl_append (hl : h.Logs names records) {others : List (Record β)}
    (ho : ∀ record ∈ others, ∀ name ∈ record.names, name ∈ names) :
    (others.foldl History.append h).Logs names (records ++ others) := by
  induction others generalizing h records with
  | nil => rwa [List.append_nil]
  | cons r rest ih =>
    have hr := hl.append r
    rw [fresh_eq_nil (ho r List.mem_cons_self), List.append_nil] at hr
    rw [List.foldl_cons, List.append_cons]
    exact ih hr fun r' hr' => ho r' (List.mem_cons_of_mem r hr')

theorem clear (hl : h.Logs names records) : h.clear.Logs names [] := by
  constructor
  case toHolds =>
    refine ⟨hl.order, rfl, fun name hname => ?_⟩
    have hcleared := Keyed.lookup_map (fun _ => (#[] : Array (Option β))) name h.columns
    rw [hl.lookup name hname] at hcleared
    exact hcleared
  case names_eq => rw [names_clear, hl.names_eq]
  case nodup => exact hl.nodup
  case named => exact fun r hr => absurd hr List.not_mem_nil

theorem size_of_mem (hl : h.Logs names records) {column : String × Array (Option β)}
    (hmem : column ∈ h.columns) : column.2.size = h.size := by
  have hnames : h.columns.names = names := hl.names_eq
  have hlookup := Keyed.lookup_of_mem (hnames.symm ▸ hl.nodup) hmem
  have hname : column.1 ∈ names := hnames ▸ List.mem_map_of_mem hmem
  rw [hl.lookup column.1 hname] at hlookup
  rw [← Option.some.inj hlookup, hl.size, List.size_toArray, List.length_map]

theorem ofList_eq_filled (hl : h.Logs names records) {entry : String → Option β}
    (hentry : ∀ name ∈ names, entry name = entryOf name record) :
    Keyed.ofList (h.order.map fun name => (name, entry name)) = filled names record := by
  have hrow : (h.order.map fun name => (name, entry name)) = filled names record := by
    rw [hl.order, filled]
    exact List.map_congr_left fun name hname => by rw [hentry name hname]
  have hnames : (filled names record).names = names := by
    rw [filled, Keyed.names, List.map_map]
    exact List.map_id names
  rw [hrow, Keyed.ofList_of_nodup (hnames.symm ▸ hl.nodup)]

theorem records_eq (hl : h.Logs names records) : h.records = records.map (filled names) := by
  apply List.ext_getElem
  · rw [length_records, hl.size, List.length_map]
  · intro i hi hi'
    rw [List.length_map] at hi'
    simp only [History.records, List.getElem_map, List.getElem_range]
    refine hl.ofList_eq_filled fun name hname => ?_
    rw [hl.toHolds.column hname, List.getElem?_toArray, List.getElem?_map,
      List.getElem?_eq_getElem hi']
    rfl

theorem last_of_nil (hl : h.Logs names []) : h.last = .error .historyEmpty := if_pos hl.size

theorem last_of_append (hl : h.Logs names (records ++ [record])) :
    h.last = .ok (filled names record) := by
  have hsize : h.size ≠ 0 := by
    rw [hl.size, List.length_append]
    exact Nat.succ_ne_zero _
  rw [last, if_neg hsize]
  refine congrArg Except.ok (hl.ofList_eq_filled fun name hname => ?_)
  rw [hl.toHolds.column hname, List.map_append, List.back?_toArray, List.map_singleton,
    List.getLast?_concat]
  rfl

theorem last_spec (hl : h.Logs names records) :
    (h.last = .error .historyEmpty ↔ h.records = []) ∧
      ∀ record, h.last = .ok record ↔ h.records.getLast? = some record := by
  rw [hl.records_eq]
  rcases List.eq_nil_or_concat records with rfl | ⟨front, r, rfl⟩
  · rw [hl.last_of_nil]
    exact ⟨iff_of_true rfl rfl, fun record => iff_of_false (by nofun) (by nofun)⟩
  · rw [List.concat_eq_append] at hl ⊢
    rw [hl.last_of_append, List.map_append, List.map_singleton, List.getLast?_concat]
    refine ⟨iff_of_false (by nofun) (by simp), fun record => ?_⟩
    rw [Except.ok.injEq, Option.some.injEq]

end Logs

inductive Change (β : Type) where
  | append (record : Record β)
  | clear

namespace Change

def apply (h : History β) : Change β → History β
  | append record => h.append record
  | clear => h.clear

/-- The keys of the record that is added, if one is. -/
def named : Change β → List String
  | append record => record.names
  | clear => []

def keep (records : List (Record β)) : Change β → List (Record β)
  | append record => records ++ [record]
  | clear => []

end Change

theorem Logs.change (hl : h.Logs names records) (c : Change β) :
    (c.apply h).Logs (names ++ fresh names c.named) (c.keep records) := by
  cases c with
  | append record => exact hl.append record
  | clear =>
    rw [Change.named, fresh, List.nil_removeAll, List.eraseDups_nil, List.append_nil]
    exact hl.clear

theorem Logs.changes (hl : h.Logs names records) (cs : List (Change β)) :
    (cs.foldl Change.apply h).Logs (names ++ fresh names (cs.flatMap Change.named))
      (cs.foldl Change.keep records) := by
  induction cs generalizing h names records with
  | nil => rwa [List.flatMap_nil, fresh, List.nil_removeAll, List.eraseDups_nil, List.append_nil]
  | cons c rest ih =>
    rw [List.flatMap_cons, fresh_append, ← List.append_assoc]
    exact ih (hl.change c)

/-- What a history shows that was made with some columns and then changed. -/
structure IsLogOf (h : History β) (initial : List String) (cs : List (Change β)) : Prop where
  /-- All columns have an entry for each record. -/
  even : ∀ column ∈ h.columns, column.2.size = h.size
  columns : h.names = h.order
  order : h.order = initial ++ fresh initial (cs.flatMap Change.named)
  /-- Columns are never lost. -/
  grows : ∀ more : List (Change β), h.order <+: (more.foldl Change.apply h).order
  size : h.size = (cs.foldl Change.keep []).length
  records : h.records = (cs.foldl Change.keep []).map (filled h.order)
  /-- No entry of a record is lost. -/
  whole : ∀ record ∈ cs.foldl Change.keep [], ∀ name ∈ record.names, name ∈ h.order
  last : ∀ record, h.last = .ok record ↔ h.records.getLast? = some record
  empty : h.last = .error .historyEmpty ↔ h.records = []

theorem isLogOf_changes {initial : List String} (hd : initial.Nodup) (cs : List (Change β)) :
    (cs.foldl Change.apply (ofNames initial)).IsLogOf initial cs := by
  have hl := (logs_ofNames hd).changes cs
  constructor
  case even => exact fun column => hl.size_of_mem
  case columns => rw [hl.names_eq, hl.order]
  case order => exact hl.order
  case grows =>
    intro more
    rw [(hl.changes more).order, hl.order]
    exact List.prefix_append _ _
  case size => exact hl.size
  case records => rw [hl.records_eq, hl.order]
  case whole =>
    rw [hl.order]
    exact hl.named
  case last => exact hl.last_spec.2
  case empty => exact hl.last_spec.1

def sampleChanges : List (Change Nat) :=
  [.append [("a", some 1), ("c", some 2)], .clear, .append [("b", none)],
    .append [("d", some 4), ("a", some 3)]]

theorem isLogOf_changes_sample : ["a", "b"].Nodup ∧
    (sampleChanges.foldl Change.apply (ofNames ["a", "b"])).IsLogOf ["a", "b"] sampleChanges :=
  ⟨by decide, isLogOf_changes (by decide) sampleChanges⟩

end History

end BlockStep
