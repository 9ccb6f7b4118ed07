import BlockStep.Given
import BlockStep.Registry

namespace BlockStep

/-- A particle's way from one bin to another. -/
structure Move where
  kind : Int
  source : Int
  target : Int
deriving DecidableEq

namespace Move

def Changes (m : Move) : Prop := m.source ≠ m.target

instance (m : Move) : Decidable m.Changes := inferInstanceAs (Decidable (_ ≠ _))

/-- The change in the occupancy of `bin`. -/
def gain (moves : List Move) (bin : Int) : Int :=
  moves.countP (fun m => decide (m.target = bin)) - moves.countP (fun m => decide (m.source = bin))

/-- Moves from columns. Where no bin changes the kinds do not matter; otherwise the three columns
have to agree in shape. -/
def ofColumns (kinds sources targets : Shaped Int) : Except Fault (List Move) := do
  let ways ← Given.zip (fun s t => (s, t)) sources targets
  if ways.all fun w => w.1 == w.2 then .ok []
  else if [kinds, sources, targets].all fun s => s.shape == ways.shape then
    .ok (List.zipWith (fun k w => ⟨k, w.1, w.2⟩) kinds.cells.toList ways.cells.toList)
  else .error .outOfRange

end Move

namespace Registry

variable {n : Nat}

/-- A table row after moves. -/
def moved (row : Vector Int n) (moves : List Move) : Vector Int n :=
  Vector.ofFn fun b => row.get b + Move.gain moves b.val

/-- No entry of the tables is negative. -/
def isCount (r : Registry n) : Bool :=
  r.count.all (0 ≤ ·) && r.byKind.all fun row => row.all (0 ≤ ·)

/-- Moves particles between bins in one step and counts those that change their bin. Bins outside
the table change nothing; kinds outside it leave the total changed. -/
def migrate (r : Registry n) (moves : List Move) : Registry n × Except Fault Nat :=
  let moves := moves.filter fun m => decide m.Changes
  if moves.isEmpty then (r, .ok 0)
  else if moves.any fun m => !(decide (r.HasBin m.source) && decide (r.HasBin m.target)) then
    (r, .error .outsideTable)
  else
    let r := { r with count := moved r.count moves }
    if moves.any fun m => !decide (Kind.Exists m.kind) then (r, .error .outsideTable)
    else
      let r := { r with
        byKind := Vector.ofFn fun k =>
          moved (r.byKind.get k) (moves.filter fun m => decide (m.kind = k.val)) }
      if r.isCount then (r, .ok moves.length) else (r, .error .negativeOccupancy)

theorem getElem_moved (row : Vector Int n) (moves : List Move) {b : Nat} (h : b < n) :
    (moved row moves)[b] = row[b] + Move.gain moves b := by
  simp [moved, Vector.get]

end Registry

end BlockStep
