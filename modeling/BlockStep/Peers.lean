import BlockStep.Collective

namespace BlockStep

inductive Numeric (α : Type) where
  | whole (i : Int)
  | real (x : α)

namespace Numeric

variable {α : Type} [Scalar α]

def toReal : Numeric α → α
  | whole i => Scalar.ofInt i
  | real x => x

def whole? : Numeric α → Option Int
  | whole i => some i
  | real _ => none

end Numeric

inductive Contribution (α : Type) where
  | one (value : Numeric α)
  /-- A number for each kind. -/
  | six (values : Vector (Numeric α) 6)

namespace Contribution

variable {α : Type}

def one? : Contribution α → Option (Numeric α)
  | one v => some v
  | six _ => none

def six? : Contribution α → Option (Vector (Numeric α) 6)
  | one _ => none
  | six vs => some vs

end Contribution

structure Peers (α : Type) where
  least : List (Contribution α)
  greatest : List (Contribution α)
  sum : List (Contribution α)

namespace Peers

variable {α : Type} [Scalar α]

/-- A whole number joined with others; beside a real all are reals, and the joint value is cut. -/
def joinWhole (whole : Int → Int → Int) (real : α → α → α) (v : Int) (others : List (Numeric α)) :
    Int :=
  match others.mapM Numeric.whole? with
  | some is => is.foldl whole v
  | none => Scalar.trunc ((others.map Numeric.toReal).foldl real (Scalar.ofInt v))

def joinReal (real : α → α → α) (v : α) (others : List (Numeric α)) : α :=
  (others.map Numeric.toReal).foldl real v

/-- The others' numbers for each kind. -/
def byKind (cs : List (Contribution α)) (k : Fin 6) : List (Numeric α) :=
  (cs.filterMap Contribution.six?).map (·.get k)

/-- The agreed value of a reduction. -/
def answer (p : Peers α) : (r : Reduction) → r.Carrier α → r.Carrier α
  | .leastTick => fun (i : Int) =>
    joinWhole min Scalar.lower i (p.least.filterMap Contribution.one?)
  | .faultCount => fun (i : Int) =>
    joinWhole (· + ·) (· + ·) i (p.sum.filterMap Contribution.one?)
  | .greatestLength => fun (x : α) =>
    (joinReal Scalar.upper x (p.greatest.filterMap Contribution.one?) : α)
  | .kindSums => fun (v : Vector α 6) =>
    Vector.ofFn fun k => joinReal (· + ·) (v.get k) (byKind p.sum k)
  | .kindCounts => fun (v : Vector Int 6) =>
    Vector.ofFn fun k => joinWhole (· + ·) (· + ·) (v.get k) (byKind p.sum k)
  | .kindLeasts => fun (v : Vector α 6) =>
    Vector.ofFn fun k => joinReal Scalar.lower (v.get k) (byKind p.least k)

end Peers

end BlockStep
