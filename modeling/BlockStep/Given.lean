import BlockStep.Document
import BlockStep.Fault
import BlockStep.Shaped
import BlockStep.Text.Binary
import BlockStep.Text.Numeral
import BlockStep.Word

namespace BlockStep

mutual

/-- The cells of nested lists; none if the rows differ in shape. -/
def Value.shaped? : Value → Option (Shaped Value)
  | .list items => (Value.shapedItems? items).bind Shaped.stack?
  | v => some (.single v)

def Value.shapedItems? : List Value → Option (List (Shaped Value))
  | [] => some []
  | v :: rest =>
    match v.shaped?, Value.shapedItems? rest with
    | some s, some ss => some (s :: ss)
    | _, _ => none

end

/-- Nested lists of extents, outermost first, of cells in row order. -/
def Value.ofCells : List Nat → List Value → Value
  | [], cells => cells.headD .null
  | n :: shape, cells =>
    let size := shape.foldl (· * ·) 1
    .list ((List.range n).map fun i => ofCells shape ((cells.drop (i * size)).take size))

def Value.ofShaped (s : Shaped Value) : Value := ofCells s.shape s.cells.toList

namespace Given

/-- Nested lists whose rows differ in shape hold no cells. -/
def cells (v : Value) : Except Fault (Shaped Value) :=
  match v.shaped? with
  | some s => .ok s
  | none => .error .shapesDiffer

/-- A real without its fraction, if it has a whole part. -/
def wholeOfReal (x : Float) : Except Fault Int :=
  match Text.Binary.ofFloat x with
  | .undefined => .error .notANumber
  | .infinite _ => .error .wordOverflow
  | .finite negative m e =>
    let n := if 0 ≤ e then m * pow2 e.toNat else m / pow2 (-e).toNat
    .ok (if negative then -(n : Int) else n)

/-- The whole number a single value stands for. -/
def whole : Value → Except Fault Int
  | .whole i => .ok i
  | .bool b => .ok (if b then 1 else 0)
  | .real x => wholeOfReal x
  | .text s =>
    match Text.whole? s.toList with
    | some i => .ok i
    | none => .error .notANumber
  | .list _ => .error .shapesDiffer
  | .null | .map _ => .error .missingNumber

/-- As `whole`, and the number is a word. -/
def word (v : Value) : Except Fault Int := do
  let i ← whole v
  if Word.Holds i then .ok i else .error .wordOverflow

/-- The real a single value stands for; a missing one is undefined. -/
def real : Value → Except Fault Float
  | .whole i => .ok (Float.ofInt i)
  | .bool b => .ok (if b then 1.0 else 0.0)
  | .real x => .ok x
  | .text s =>
    match Text.real? s.toList with
    | some x => .ok x
    | none => .error .notANumber
  | .null => .ok (0.0 / 0.0)
  | .list _ => .error .shapesDiffer
  | .map _ => .error .missingNumber

def eachCell {β γ : Type} (f : β → Except Fault γ) (s : Shaped β) : Except Fault (Shaped γ) := do
  .ok ⟨s.shape, ← s.cells.mapM f⟩

/-- The word a real is cut to; one without a place among the words becomes the least. -/
def cut (x : Float) : Int :=
  match wholeOfReal x with
  | .ok i => if Word.Holds i then i else Word.least
  | .error _ => Word.least

def isReal : Value → Bool
  | .real _ => true
  | _ => false

/-- Whole numbers that neither signed nor unsigned words hold. -/
def isBeyondWords : Value → Bool
  | .whole i => i < Word.least || Word.span ≤ i
  | _ => false

/-- Words from numbers that share one representation: all are reals if one is, or if both a negative
number and one above the words occur; otherwise numbers below `Word.span` wrap around. Beside a
number beyond that each has to be a word by itself, which that number is not. -/
def words (s : Shaped Value) : Except Fault (Shaped Int) := do
  if s.cells.any isBeyondWords then
    return ← eachCell word s
  if s.cells.any isReal then
    return (← eachCell real s).map cut
  let is ← eachCell whole s
  if is.cells.any (· < 0) && is.cells.any (Word.greatest < ·) then
    return is.map fun i => cut (Float.ofInt i)
  return is.map Word.wrap

/-- Words from a list in its shared representation, and from a single number as it is. -/
def wordsOf (s : Shaped Value) : Except Fault (Shaped Int) :=
  if s.isSingle then eachCell word s else words s

def reals (s : Shaped Value) : Except Fault (Shaped Float) := eachCell real s

/-- A single number is a row of one. -/
def atLeastRow {β : Type} (s : Shaped β) : Shaped β := if s.isSingle then ⟨[1], s.cells⟩ else s

/-- Cell by cell, where the shapes have to match. -/
def zip {β γ δ : Type} (f : β → γ → δ) (s : Shaped β) (t : Shaped γ) : Except Fault (Shaped δ) :=
  match s.zipWith? f t with
  | some u => .ok u
  | none => .error .shapesDiffer

end Given

end BlockStep
