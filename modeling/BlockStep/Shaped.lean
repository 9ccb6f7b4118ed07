namespace BlockStep

/-- Cells in row order under a list of extents, outermost first. -/
structure Shaped (β : Type) where
  shape : List Nat
  cells : Array β

namespace Shaped

variable {β γ δ : Type}

def single (b : β) : Shaped β := ⟨[], #[b]⟩

def row (bs : List β) : Shaped β := ⟨[bs.length], bs.toArray⟩

def isSingle (s : Shaped β) : Bool := s.shape.isEmpty

def map (f : β → γ) (s : Shaped β) : Shaped γ := ⟨s.shape, s.cells.map f⟩

def all (p : β → Bool) (s : Shaped β) : Bool := s.cells.all p

/-- The common extents of two arrangements, innermost first. -/
def matched? : List Nat → List Nat → Option (List Nat)
  | [], es => some es
  | ds, [] => some ds
  | d :: ds, e :: es =>
    if d = e ∨ e = 1 then (matched? ds es).map (d :: ·)
    else if d = 1 then (matched? ds es).map (e :: ·)
    else none

/-- Where the cell `flat` of the extents `out` lies under the extents `own`, both innermost
first. -/
def position (out own : List Nat) (flat : Nat) : Nat :=
  match out, own with
  | d :: out, e :: own =>
    let rest := position out own (flat / d)
    if e = 1 then rest else flat % d + e * rest
  | _, _ => 0

/-- Cell by cell, extents of one repeated; none if the extents do not match. -/
def zipWith? (f : β → γ → δ) (s : Shaped β) (t : Shaped γ) : Option (Shaped δ) := do
  let out ← matched? s.shape.reverse t.shape.reverse
  let size := out.foldl (· * ·) 1
  let cells ← (List.range size).mapM fun i => do
    let a ← s.cells[position out s.shape.reverse i]?
    let b ← t.cells[position out t.shape.reverse i]?
    pure (f a b)
  pure ⟨out.reverse, cells.toArray⟩

/-- The cells repeated to fill extents, if they match them. -/
def spread? (s : Shaped β) (shape : List Nat) : Option (Shaped β) := do
  let t ← zipWith? (fun b _ => b) s ⟨shape, Array.replicate (shape.foldl (· * ·) 1) ()⟩
  if t.shape = shape then some t else none

/-- The cells of a row of length `n`, of which a single cell is repeated. -/
def toRow? (s : Shaped β) (n : Nat) : Option (List β) :=
  match s.shape with
  | [] => (s.cells[0]?).map (List.replicate n)
  | [d] => if d = n then some s.cells.toList
    else if d = 1 then (s.cells[0]?).map (List.replicate n) else none
  | _ => none

/-- Rows of one shape put under a further extent. -/
def stack? (rows : List (Shaped β)) : Option (Shaped β) :=
  match rows with
  | [] => some ⟨[0], #[]⟩
  | first :: rest =>
    if rest.all fun r => r.shape == first.shape then
      some ⟨rows.length :: first.shape, rows.foldl (fun cells r => cells ++ r.cells) #[]⟩
    else none

end Shaped

end BlockStep
