import BlockStep.Power

namespace BlockStep.Text

inductive Binary where
  | undefined
  | infinite (negative : Bool)
  | finite (negative : Bool) (mantissa : Nat) (exponent : Int)

namespace Binary

def ofFloat (x : Float) : Binary :=
  let bits := x.toBits.toNat
  let negative := bits / pow2 63 == 1
  let raised : Nat := bits / pow2 52 % pow2 11
  let fraction := bits % pow2 52
  if raised == 2047 then
    if fraction == 0 then .infinite negative else .undefined
  else if raised == 0 then .finite negative fraction (-1074)
  else .finite negative (fraction + pow2 52) (raised - 1075)

end Binary

/-- A fraction with a positive denominator. -/
structure Fraction where
  num : Nat
  den : Nat

namespace Fraction

def ofBinary (mantissa : Nat) (exponent : Int) : Fraction :=
  if 0 ≤ exponent then ⟨mantissa * pow2 exponent.toNat, 1⟩
  else ⟨mantissa, pow2 (-exponent).toNat⟩

/-- `10 ^ k` times the fraction. -/
def scale10 (f : Fraction) (k : Int) : Fraction :=
  if 0 ≤ k then ⟨f.num * pow10 k.toNat, f.den⟩ else ⟨f.num, f.den * pow10 (-k).toNat⟩

/-- The nearest whole number; a tie goes to the even neighbour. -/
def round (f : Fraction) : Nat :=
  let q := f.num / f.den
  let r := f.num % f.den
  if 2 * r < f.den ∨ 2 * r = f.den ∧ q % 2 = 0 then q else q + 1

/-- The exponent of the leading decimal digit of a positive fraction: a guess from the binary
lengths, which is never too large and at most one too small, then corrected. -/
def magnitude (f : Fraction) : Int :=
  let guess := ((f.num.log2 : Int) - f.den.log2 - 1) * 30103 / 100000 - 1
  let fits (k : Int) : Bool :=
    let g := f.scale10 (-k)
    g.den ≤ g.num
  if fits (guess + 2) then guess + 2 else if fits (guess + 1) then guess + 1 else guess

end Fraction

/-- A positive decimal number: the digits' value, and the exponent of the leading digit. -/
structure Decimal where
  digits : Nat
  magnitude : Int
deriving DecidableEq

namespace Decimal

/-- The nearest number of `places` significant digits. -/
def ofFraction (places : Nat) (f : Fraction) : Decimal :=
  let k := f.magnitude
  let d := (f.scale10 (places - 1 - k)).round
  if d = pow10 places then ⟨d / 10, k + 1⟩ else ⟨d, k⟩

def text (d : Decimal) : List Char := Nat.toDigits 10 d.digits

/-- The digits without the zeros that end them. -/
def trimmed (d : Decimal) : List Char :=
  let kept := (d.text.reverse.dropWhile (· == '0')).reverse
  if kept.isEmpty then ['0'] else kept

end Decimal

end BlockStep.Text
