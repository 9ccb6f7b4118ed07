namespace BlockStep

/-- The operations a formula may use. -/
class Scalar (α : Type) extends Add α, Sub α, Mul α, Div α, Neg α, LT α, LE α, BEq α,
    OfScientific α where
  decideLt : ∀ a b : α, Decidable (a < b)
  decideLe : ∀ a b : α, Decidable (a ≤ b)
  ofInt : Int → α
  floor : α → α
  /-- The whole part of a number, cut toward zero. -/
  trunc : α → Int
  sqrt : α → α
  exp : α → α
  log : α → α
  pow : α → α → α
  pi : α

namespace Scalar

instance {α : Type} [Scalar α] (a b : α) : Decidable (a < b) := decideLt a b

instance {α : Type} [Scalar α] (a b : α) : Decidable (a ≤ b) := decideLe a b

instance {α : Type} [Scalar α] : Inhabited α := ⟨0.0⟩

variable {α : Type} [Scalar α]

/-- A number that differs from itself. -/
def isNaN (x : α) : Bool := !(x == x)

/-- Infinite numbers have no difference from themselves. -/
def isFinite (x : α) : Bool := !isNaN (x - x)

def isWhole (x : α) : Bool := floor x == x

/-- The smaller of two numbers; an unordered pair gives the first. -/
def lesser (x y : α) : α := if y < x then y else x

/-- The larger of two numbers; an unordered pair gives the first. -/
def larger (x y : α) : α := if x < y then y else x

/-- The largest of two numbers, where an undefined one is above all others. -/
def upper (x y : α) : α := if x < y ∨ isNaN y then y else x

/-- The smallest of two numbers, where an undefined one is below all others. -/
def lower (x y : α) : α := if y < x ∨ isNaN y then y else x

def sum (xs : List α) : α := xs.foldl (· + ·) 0.0

end Scalar

instance : Scalar Float where
  decideLt := inferInstance
  decideLe := inferInstance
  ofInt := Float.ofInt
  floor := Float.floor
  trunc x := x.toInt64.toInt
  sqrt := Float.sqrt
  exp := Float.exp
  log := Float.log
  pow := Float.pow
  pi := 3.141592653589793

end BlockStep
