import BlockStep.Text.Binary

namespace BlockStep.Text

structure RealStyle where
  /-- The least exponent of a leading digit written positionally. -/
  lowest : Int
  /-- The least exponent above those written positionally. -/
  above : Int
  /-- Whole numbers keep `.0`. -/
  marksWhole : Bool

namespace RealStyle

def pad (n : Nat) : List Char := List.replicate n '0'

def positional (s : RealStyle) (digits : List Char) (magnitude : Int) : List Char :=
  if magnitude < 0 then
    '0' :: '.' :: pad (-magnitude - 1).toNat ++ digits
  else
    let whole := magnitude.toNat + 1
    let left := digits.take whole ++ pad (whole - digits.length)
    match digits.drop whole with
    | [] => if s.marksWhole then left ++ ['.', '0'] else left
    | rest => left ++ '.' :: rest

def scientific (digits : List Char) (magnitude : Int) : List Char :=
  let power := Nat.toDigits 10 magnitude.natAbs
  let mark := if magnitude < 0 then '-' else '+'
  let front := match digits with
    | [] => []
    | [d] => [d]
    | d :: rest => d :: '.' :: rest
  front ++ 'e' :: mark :: pad (2 - power.length) ++ power

/-- The text of a positive number with the given significant digits. -/
def layout (s : RealStyle) (digits : List Char) (magnitude : Int) : String :=
  String.ofList <|
    if s.lowest ≤ magnitude ∧ magnitude < s.above then s.positional digits magnitude
    else scientific digits magnitude

end RealStyle

def signed (negative : Bool) (text : String) : String := if negative then "-" ++ text else text

/-- Six significant digits, without the zeros that end them. -/
def generalStyle : RealStyle := ⟨-4, 6, false⟩

def general (x : Float) : String :=
  match Binary.ofFloat x with
  | .undefined => "nan"
  | .infinite negative => signed negative "inf"
  | .finite negative 0 _ => signed negative "0"
  | .finite negative m e =>
    let d := Decimal.ofFraction 6 (Fraction.ofBinary m e)
    signed negative (generalStyle.layout d.trimmed d.magnitude)

/-- Four times the bounds of the reals that are read as `m * 2 ^ e`, and four times the number. -/
def readingInterval (m : Nat) (e : Int) : Nat × Nat × Nat :=
  if m = pow2 52 ∧ -1074 < e then (4 * m - 1, 4 * m, 4 * m + 2) else (4 * m - 2, 4 * m, 4 * m + 2)

/-- The nearest decimal of `places` digits among those that read back as `m * 2 ^ e`. -/
def readsBack? (m : Nat) (e : Int) (places : Nat) : Option Decimal :=
  let (lo, mid, hi) := readingInterval m e
  let value := Fraction.ofBinary mid (e - 2)
  let k := value.magnitude
  let shift : Int := places - 1 - k
  let scaled (n : Nat) : Fraction := (Fraction.ofBinary n (e - 2)).scale10 shift
  let v := scaled mid
  let below := v.num / v.den
  let within (d : Nat) : Bool :=
    let l := scaled lo
    let h := scaled hi
    if m % 2 = 0 then l.num ≤ d * l.den ∧ d * h.den ≤ h.num
    else l.num < d * l.den ∧ d * h.den < h.num
  let pick (d : Nat) : Decimal := if d = pow10 places then ⟨d / 10, k + 1⟩ else ⟨d, k⟩
  let r := v.num % v.den
  match within below && below != 0, within (below + 1) with
  | true, true =>
    if 2 * r < v.den ∨ 2 * r = v.den ∧ below % 2 = 0 then some (pick below)
    else some (pick (below + 1))
  | true, false => some (pick below)
  | false, true => some (pick (below + 1))
  | false, false => none

/-- The fewest digits that read back; seventeen always do. -/
def fewestDigits (m : Nat) (e : Int) : Decimal :=
  ((List.range 16).findSome? fun n => readsBack? m e (n + 1)).getD
    (Decimal.ofFraction 17 (Fraction.ofBinary m e))

/-- The fewest digits that read back, and always a point or an exponent. -/
def shortestStyle : RealStyle := ⟨-4, 16, true⟩

def shortest (x : Float) : String :=
  match Binary.ofFloat x with
  | .undefined => "nan"
  | .infinite negative => signed negative "inf"
  | .finite negative 0 _ => signed negative "0.0"
  | .finite negative m e =>
    let d := fewestDigits m e
    signed negative (shortestStyle.layout d.trimmed d.magnitude)

end BlockStep.Text
