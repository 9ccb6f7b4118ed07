import BlockStep.Report

namespace BlockStep

namespace Keyed

variable {β : Type} {name : String} {value : β}

theorem lookup_foldl_put (names : List String) {entries : Keyed β}
    (h : name ∈ names ∨ lookup name entries = some value) :
    lookup name (names.foldl (fun es n => put n value es) entries) = some value := by
  induction names generalizing entries with
  | nil => exact h.resolve_left List.not_mem_nil
  | cons n rest ih =>
    refine ih ?_
    by_cases hn : name = n
    · rw [hn]
      exact .inr (lookup_put_self n value entries)
    · rw [lookup_put_of_ne hn]
      exact h.imp_left fun hm => (List.mem_cons.1 hm).resolve_left hn

end Keyed

namespace History

variable {β : Type} {h : History β} {names : List String} {records : List (Record β)}
  {record : Record β}

/-- The entry of a record in a column, if there is one. -/
def entryOf (name : String) (record : Record β) : Option β := (Keyed.lookup name record).join

theorem lookup_foldl_extend (hd : names.Nodup) (columns : Keyed (Array (Option β)))
    (name : String) :
    Keyed.lookup name (names.foldl (extend record) columns) =
      (Keyed.lookup name columns).map fun c => if name ∈ names then c.push (entryOf name record)
        else c := by
  induction names generalizing columns with
  | nil => simp only [List.foldl_nil, List.not_mem_nil, if_false, Option.map_id']
  | cons n rest ih =>
    obtain ⟨hn, hd⟩ := List.nodup_cons.1 hd
    rw [List.foldl_cons, ih hd, extend]
    by_cases hname : name = n
    · rw [hname, Keyed.lookup_adjust_self, Option.map_map]
      simp only [if_neg hn, List.mem_cons_self, if_true]
      rfl
    · simp only [Keyed.lookup_adjust_of_ne hname, List.mem_cons, hname, false_or]

/-- The history has these columns, and they hold the entries of the records. -/
structure Holds (h : History β) (names : List String) (records : List (Record β)) : Prop where
  order : h.order = names
  size : h.size = records.length
  lookup : ∀ name ∈ names,
    Keyed.lookup name h.columns = some (records.map (entryOf name)).toArray

theorem holds_ofNames (names : List String) : (ofNames names : History β).Holds names [] where
  order := rfl
  size := rfl
  lookup _ hname := Keyed.lookup_foldl_put names (.inl hname)

namespace Holds

theorem withColumn (hh : h.Holds names records) {name : String} (hname : name ∈ names) :
    h.withColumn name = h := by
  rw [History.withColumn, hh.lookup name hname]

theorem foldl_withColumn (hh : h.Holds names records) {others : List String}
    (ho : ∀ name ∈ others, name ∈ names) : others.foldl History.withColumn h = h := by
  induction others with
  | nil => rfl
  | cons name rest ih =>
    rw [List.foldl_cons, hh.withColumn (ho name List.mem_cons_self)]
    exact ih fun n hn => ho n (List.mem_cons_of_mem name hn)

theorem append (hh : h.Holds names records) (hd : names.Nodup)
    (hr : ∀ name ∈ record.names, name ∈ names) :
    (h.append record).Holds names (records ++ [record]) := by
  simp only [History.append, hh.foldl_withColumn hr, hh.order]
  refine ⟨rfl, ?_, fun name hname => ?_⟩
  · rw [hh.size, List.length_append, List.length_singleton]
  · rw [lookup_foldl_extend hd, hh.lookup name hname, Option.map_some, if_pos hname,
      List.map_append, List.push_toArray]
    rfl

theorem foldl_append (hh : h.Holds names records) (hd : names.Nodup) (others : List (Record β))
    (hr : ∀ record ∈ others, ∀ name ∈ record.names, name ∈ names) :
    (others.foldl History.append h).Holds names (records ++ others) := by
  induction others generalizing h records with
  | nil => rwa [List.append_nil]
  | cons r rest ih =>
    rw [List.foldl_cons, List.append_cons]
    exact ih (hh.append hd (hr r List.mem_cons_self))
      fun r' hr' => hr r' (List.mem_cons_of_mem r hr')

theorem column (hh : h.Holds names records) {name : String} (hname : name ∈ names) :
    h.column name = (records.map (entryOf name)).toArray := by
  rw [History.column, hh.lookup name hname, Option.getD_some]

end Holds

theorem nodup_usualNames : usualNames.Nodup := by decide

end History

variable {α : Type}

theorem historyOf_eq (rows : List (Row α)) : historyOf rows =
    (rows.map Row.record).foldl History.append (.ofNames History.usualNames) := by
  rw [historyOf, List.foldl_map]

theorem names_of_mem_records {rows : List (Row α)} {record : History.Record (Cell α)}
    (h : record ∈ rows.map Row.record) : record.names = History.usualNames := by
  obtain ⟨r, -, rfl⟩ := List.mem_map.1 h
  rfl

theorem holds_historyOf (rows : List (Row α)) :
    (historyOf rows).Holds History.usualNames (rows.map Row.record) := by
  rw [historyOf_eq]
  refine (History.holds_ofNames History.usualNames).foldl_append History.nodup_usualNames _ ?_
  intro record hrecord name hname
  rwa [names_of_mem_records hrecord] at hname

theorem column_historyOf (rows : List (Row α)) {name : String} (h : name ∈ History.usualNames) :
    (historyOf rows).column name =
      (rows.map fun r => History.entryOf name r.record).toArray := by
  rw [(holds_historyOf rows).column h, List.map_map]
  rfl

theorem size_historyOf (rows : List (Row α)) : (historyOf rows).size = rows.length := by
  rw [(holds_historyOf rows).size, List.length_map]

theorem column_cycle (rows : List (Row α)) : (historyOf rows).column "cycle" =
    (rows.map fun r => some (Cell.whole r.report.cycle)).toArray :=
  column_historyOf rows (by decide)

theorem column_absolute_tick (rows : List (Row α)) : (historyOf rows).column "absolute_tick" =
    (rows.map fun r => some (Cell.whole r.absoluteTick)).toArray :=
  column_historyOf rows (by decide)

end BlockStep
