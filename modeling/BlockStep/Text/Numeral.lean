import BlockStep.Text.Digit
import BlockStep.Text.Lines

namespace BlockStep.Text

/-- The digits of a run such as `1_000`: single underscores between digits, and at least one
digit. -/
def ungrouped? : List Char → Option (List Char)
  | [] => none
  | [c] => if isAsciiDigit c then some [c] else none
  | c :: '_' :: rest => if isAsciiDigit c then (ungrouped? rest).map (c :: ·) else none
  | c :: rest => if isAsciiDigit c then (ungrouped? rest).map (c :: ·) else none

/-- A sign and what follows it. -/
def splitSign : List Char → Bool × List Char
  | '-' :: rest => (true, rest)
  | '+' :: rest => (false, rest)
  | cs => (false, cs)

/-- The most digits a whole number may be written with. -/
def longestWhole : Nat := 4300

def prepared (cs : List Char) : List Char := (strip cs).map plain

/-- A whole number of at most `longestWhole` digits. -/
def whole? (cs : List Char) : Option Int :=
  let (negative, rest) := splitSign (prepared cs)
  match ungrouped? rest with
  | none => none
  | some ds =>
    if longestWhole < ds.length then none
    else if negative then some (-(natOfDigits ds : Int)) else some (natOfDigits ds)

/-- `digits * 10 ^ power`, rounded once. The value is settled without the power when it lies beyond
all doubles on either side. -/
def realOfDigits (ds : List Char) (power : Int) : Float :=
  let ds := ds.dropWhile (· == '0')
  let top : Int := ds.length + power
  if ds.isEmpty ∨ top < -400 then 0.0
  else if 400 < top then 1.0 / 0.0
  else
    let n := natOfDigits ds
    if 0 ≤ power then Float.ofScientific n false power.toNat
    else Float.ofScientific n true (-power).toNat

def lowerAscii (cs : List Char) : List Char := cs.map Char.toLower

def named? (cs : List Char) : Option Float :=
  match String.ofList (lowerAscii cs) with
  | "inf" | "infinity" => some (1.0 / 0.0)
  | "nan" => some (0.0 / 0.0)
  | _ => none

/-- The longest start made of digits and underscores, and the rest. -/
def digitRun (cs : List Char) : List Char × List Char :=
  (cs.takeWhile fun c => isAsciiDigit c || c == '_',
    cs.dropWhile fun c => isAsciiDigit c || c == '_')

/-- A possibly empty run of grouped digits. -/
def optionalRun? (cs : List Char) : Option (List Char) :=
  if cs.isEmpty then some [] else ungrouped? cs

/-- An exponent part, `e` and a signed run of digits, or nothing. -/
def power? : List Char → Option Int
  | [] => some 0
  | c :: rest =>
    if c == 'e' || c == 'E' then
      let (negative, ds) := splitSign rest
      (ungrouped? ds).map fun ds =>
        let n : Int := natOfDigits ds
        if negative then -n else n
    else none

/-- Digits with an optional point and exponent, without a sign. -/
def unsignedReal? (cs : List Char) : Option Float :=
  let (front, rest) := digitRun cs
  let (back, rest) := match rest with
    | '.' :: rest => digitRun rest
    | rest => ([], rest)
  match optionalRun? front, optionalRun? back, power? rest with
  | some f, some b, some p =>
    if f.isEmpty && b.isEmpty then none else some (realOfDigits (f ++ b) (p - b.length))
  | _, _, _ => none

def real? (cs : List Char) : Option Float :=
  let (negative, rest) := splitSign (prepared cs)
  match (named? rest).or (unsignedReal? rest) with
  | some x => some (if negative then -x else x)
  | none => none

end BlockStep.Text
