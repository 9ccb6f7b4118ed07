import BlockStep.Document
import BlockStep.Text.Numeral

namespace BlockStep.Yaml

open Text

def isNull (cs : List Char) : Bool :=
  [[], "~".toList, "null".toList, "Null".toList, "NULL".toList].contains cs

def truth? (cs : List Char) : Option Bool :=
  if ["true".toList, "True".toList, "TRUE".toList].contains cs then some true
  else if ["false".toList, "False".toList, "FALSE".toList].contains cs then some false
  else none

/-- Digits of a base and underscores, at least one of them. -/
def isRun (isDigit : Char → Bool) (cs : List Char) : Bool :=
  !cs.isEmpty && cs.all fun c => isDigit c || c == '_'

def ungrouped (cs : List Char) : List Char := cs.filter (· != '_')

def isBinary (c : Char) : Bool := c == '0' || c == '1'

def isOctal (c : Char) : Bool := '0' ≤ c && c ≤ '7'

def isHex (c : Char) : Bool := isAsciiDigit c || 'a' ≤ c && c ≤ 'f' || 'A' ≤ c && c ≤ 'F'

def hexValue (c : Char) : Nat :=
  if isAsciiDigit c then c.toNat - 48 else c.toLower.toNat - 87

def natOfBase (base : Nat) (cs : List Char) : Nat := cs.foldl (fun n c => base * n + hexValue c) 0

/-- A whole number after its sign; other bases than ten are marked. -/
def unsignedWhole? : List Char → Option Nat
  | '0' :: 'b' :: cs => if isRun isBinary cs then some (natOfBase 2 (ungrouped cs)) else none
  | '0' :: 'o' :: cs => if isRun isOctal cs then some (natOfBase 8 (ungrouped cs)) else none
  | '0' :: 'x' :: cs => if isRun isHex cs then some (natOfBase 16 (ungrouped cs)) else none
  | cs =>
    if isRun isAsciiDigit cs && !(ungrouped cs).isEmpty then some (natOfDigits (ungrouped cs))
    else none

/-- A run that starts with a digit. -/
def isNumberRun : List Char → Bool
  | c :: cs => isAsciiDigit c && cs.all fun c => isAsciiDigit c || c == '_'
  | [] => false

/-- An exponent, which behind a lone fraction needs a sign. -/
def isPower (needsSign : Bool) : List Char → Bool
  | e :: s :: cs =>
    (e == 'e' || e == 'E')
      && if s == '-' || s == '+' then !cs.isEmpty && cs.all isAsciiDigit
        else !needsSign && (s :: cs).all isAsciiDigit
  | _ => false

/-- The form of a real after its sign. -/
def isReal (cs : List Char) : Bool :=
  let (front, rest) := digitRun cs
  match rest with
  | '.' :: rest =>
    let (back, power) := digitRun rest
    if front.isEmpty then !back.isEmpty && (power.isEmpty || isPower true power)
    else isNumberRun front && (power.isEmpty || isPower false power)
  | power => isNumberRun front && isPower false power

def special? (negative : Bool) (signed : Bool) (cs : List Char) : Option Float :=
  if [".inf".toList, ".Inf".toList, ".INF".toList].contains cs then
    some (if negative then -(1.0 / 0.0) else 1.0 / 0.0)
  else if !signed && [".nan".toList, ".NaN".toList, ".NAN".toList].contains cs then some (0.0 / 0.0)
  else none

/-- Numbers start with a digit, a sign or a point. -/
def number? (cs : List Char) : Option Value :=
  match cs with
  | [] => none
  | c :: _ =>
    if !(isAsciiDigit c || c == '-' || c == '+' || c == '.') then none
    else
      let signed := c == '-' || c == '+'
      let (negative, rest) := splitSign cs
      match special? negative signed rest with
      | some x => some (.real x)
      | none =>
        if isReal rest then
          (unsignedReal? (ungrouped rest)).map fun x => .real (if negative then -x else x)
        else (unsignedWhole? rest).map fun n => .whole (if negative then -(n : Int) else n)

/-- The value of a plain scalar. -/
def resolve (cs : List Char) : Value :=
  if isNull cs then .null
  else
    match truth? cs with
    | some b => .bool b
    | none => (number? cs).getD (.text (String.ofList cs))

end BlockStep.Yaml
