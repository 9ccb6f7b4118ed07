import BlockStep.Fault
import BlockStep.Keyed

namespace BlockStep

structure History (β : Type) where
  /-- The columns in order of first appearance; those named at the start may repeat. -/
  order : List String
  columns : Keyed (Array (Option β))
  size : Nat

namespace History

variable {β : Type}

abbrev Record (β : Type) := Keyed (Option β)

def ofNames (names : List String) : History β where
  order := names
  columns := names.foldl (fun cs name => Keyed.put name #[] cs) []
  size := 0

/-- The history with a column that earlier records lack. -/
def withColumn (h : History β) (name : String) : History β :=
  match Keyed.lookup name h.columns with
  | some _ => h
  | none =>
    { h with
      order := h.order ++ [name]
      columns := Keyed.put name (Array.replicate h.size none) h.columns }

/-- Adds a record's entry to a column. -/
def extend (record : Record β) (columns : Keyed (Array (Option β))) (name : String) :
    Keyed (Array (Option β)) :=
  Keyed.adjust name (·.push ((Keyed.lookup name record).join)) columns

def append (h : History β) (record : Record β) : History β :=
  let h := record.names.foldl withColumn h
  { h with columns := h.order.foldl (extend record) h.columns, size := h.size + 1 }

/-- Drops all records and keeps the columns. -/
def clear (h : History β) : History β :=
  { h with columns := h.columns.map fun c => (c.1, #[]), size := 0 }

/-- The names of the columns, each once. -/
def names (h : History β) : List String := h.columns.names

def column (h : History β) (name : String) : Array (Option β) :=
  (Keyed.lookup name h.columns).getD #[]

/-- The record at a position, with an entry for every column. -/
def record (h : History β) (i : Nat) : Record β :=
  Keyed.ofList (h.order.map fun name => (name, (h.column name)[i]?.join))

def records (h : History β) : List (Record β) := (List.range h.size).map h.record

def last (h : History β) : Except Fault (Record β) :=
  if h.size = 0 then .error .historyEmpty
  else .ok (Keyed.ofList (h.order.map fun name => (name, (h.column name).back?.join)))

/-- The number of entries of the first column. -/
def height (h : History β) : Nat := ((h.order.head?).map fun name => (h.column name).size).getD 0

@[simp] theorem length_records (h : History β) : h.records.length = h.size := by
  simp [records]

@[simp] theorem names_clear (h : History β) : h.clear.names = h.names := by
  simp [clear, names, Keyed.names]

end History

end BlockStep
