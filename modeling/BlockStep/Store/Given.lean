import BlockStep.Act
import BlockStep.Given
import BlockStep.Store.Column

namespace BlockStep

namespace Column

/-- A list of numbers by threes. -/
def byThrees : List Float → List (Vec3 Float)
  | x :: y :: z :: rest => ⟨x, y, z⟩ :: byThrees rest
  | _ => []

/-- A single number is a row of one. -/
def asRow (shape : List Nat) : List Nat := if shape.isEmpty then [1] else shape

/-- The entries of a column, row by row. -/
def cellsOf (c : Column Float) (s : Shaped Value) : Except Fault (ColumnCells Float) := do
  match c with
  | whole .. => .ok (.wholes (← Given.eachCell Given.word s).cells.toList)
  | real .. => .ok (.reals (← Given.reals s).cells.toList)
  | vector .. => .ok (.vectors (byThrees (← Given.reals s).cells.toList))

/-- The store with given cells in a column, one for each particle. -/
def place (s : Store Float) (name : String) (c : Column Float) (given : Shaped Value) :
    Except Fault (Store Float) := do
  let cells ← c.cellsOf given
  let shape := asRow given.shape
  if shape = c.extents s.size then .ok (c.write s cells)
  else .error (.columnShape name shape (c.extents s.size))

end Column

namespace Store

/-- Particles of given kinds, numbered in their order. -/
def ofKinds (kinds : List Int) : Store Float :=
  (kinds.zipIdx.map fun e => { (default : Particle Float) with id := e.2, kind := e.1 }).toArray

/-- The kinds of the particles. -/
def kindsOf (given : Shaped Value) : Except Fault (List Int) := do
  let s ← Given.eachCell Given.word given
  match s.shape with
  | [] => .error .outOfRange
  | [_] =>
    if s.all fun k => decide (Kind.Exists k) then .ok s.cells.toList else .error .kindRange
  | n :: _ => .error (.columnShape "kind" s.shape [n])

section

variable {σ γ : Type} (cells : γ → Except Fault (Shaped Value))

def writeColumn (columns : Keyed γ) (s : Store Float) (e : String × Column Float) :
    Except Fault (Store Float) :=
  match Keyed.lookup e.1 columns with
  | some v => if e.1 = "kind" then .ok s else do Column.place s e.1 e.2 (← cells v)
  | none => .ok s

/-- The store of some columns, whose cells are read in turn. -/
def ofNamed (columns : Keyed γ) : Act Float σ (Store Float) := do
  match Keyed.lookup "kind" columns with
  | none => Act.fail .kindMissing
  | some kinds =>
    let ks ← Act.lift (cells kinds >>= kindsOf)
    let known := (Column.all (α := Float)).names
    let unknown := (Keyed.sorted columns).names.filter fun name => !known.contains name
    if !unknown.isEmpty then Act.tell (.columnsIgnored unknown)
    Act.lift (Column.all.foldlM (writeColumn cells columns) (ofKinds ks))

end

variable {σ : Type}

def ofColumns (columns : Keyed Value) : Act Float σ (Store Float) := ofNamed Given.cells columns

def ofArrays (arrays : Keyed (Shaped Value)) : Act Float σ (Store Float) := ofNamed .ok arrays

/-- The store with other entries in a column; fewer entries are repeated. -/
def setColumn (s : Store Float) (name : String) (v : Value) : Except Fault (Store Float) :=
  match Keyed.lookup name Column.all with
  | none => .error .outOfRange
  | some c => do
    match (← Given.cells v).spread? (c.extents s.size) with
    | some given => .ok (c.write s (← c.cellsOf given))
    | none => .error .shapesDiffer

end Store

end BlockStep
