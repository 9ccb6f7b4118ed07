import BlockStep.Document
import BlockStep.Shaped
import BlockStep.Store.Column

namespace BlockStep

namespace ColumnCells

def value : ColumnCells Float → Value
  | wholes is => .list (is.map .whole)
  | reals xs => .list (xs.map .real)
  | vectors vs => .list (vs.map fun v => .list (v.toList.map .real))

/-- The entries with their extents, which a list of none does not show. -/
def array : ColumnCells Float → Shaped Value
  | wholes is => ⟨[is.length], (is.map Value.whole).toArray⟩
  | reals xs => ⟨[xs.length], (xs.map Value.real).toArray⟩
  | vectors vs => ⟨[vs.length, 3], (vs.flatMap fun v => v.toList.map Value.real).toArray⟩

end ColumnCells

namespace Store

def columnValue? (s : Store Float) (name : String) : Option Value :=
  (Keyed.lookup name Column.all).map fun c => (c.read s).value

/-- The columns of some names; names that are not columns have nothing. -/
def columnsOf (s : Store Float) (names : List String) : Keyed Value :=
  names.map fun name => (name, (s.columnValue? name).getD .null)

/-- All columns. -/
def columns (s : Store Float) : Keyed Value := Column.all.map fun e => (e.1, (e.2.read s).value)

def arrays (s : Store Float) : Keyed (Shaped Value) :=
  Column.all.map fun e => (e.1, (e.2.read s).array)

end Store

end BlockStep
