import BlockStep.Config.Complaint
import BlockStep.Document
import BlockStep.Given
import BlockStep.Scalar
import BlockStep.Text.Numeral

namespace BlockStep.Lax

open Text

def trim (cs : List Char) : List Char := stripBy isWhite cs

/-- A text without its underscores, if it has any and each stands alone between other characters. -/
def withoutUnderscores? (cs : List Char) : Option (List Char) :=
  let parts := cs.splitOn '_'
  if parts.length ≤ 1 ∨ parts.any List.isEmpty then none else some parts.flatten

/-- A run of ASCII digits and the rest. -/
def digits (cs : List Char) : List Char × List Char :=
  (cs.takeWhile isAsciiDigit, cs.dropWhile isAsciiDigit)

def powerOf? : List Char → Option Int
  | [] => some 0
  | e :: cs =>
    let (negative, ds) := splitSign cs
    if (e == 'e' || e == 'E') && !ds.isEmpty && ds.all isAsciiDigit then
      some (if negative then -(natOfDigits ds : Int) else natOfDigits ds)
    else none

def unsigned? (cs : List Char) : Option Float :=
  let (front, rest) := digits cs
  let (back, rest) := match rest with
    | '.' :: rest => digits rest
    | rest => ([], rest)
  if front.isEmpty && back.isEmpty then none
  else (powerOf? rest).map fun p => realOfDigits (front ++ back) (p - back.length)

def signedReal? (cs : List Char) : Option Float :=
  let (negative, rest) := splitSign cs
  ((named? rest).or (unsigned? rest)).map fun x => if negative then -x else x

/-- A real; underscores are left out only where no white space surrounds it. -/
def realOfText? (s : String) : Option Float :=
  let cs := s.toList
  (signedReal? (trim cs)).or ((withoutUnderscores? cs).bind signedReal?)

/-- A whole number behind zeros and underscores, where `before` is the last character of them. -/
def behindZeros? (before : Char) : List Char → Option (List Char)
  | [] => some [before]
  | c :: cs =>
    if c == '0' then behindZeros? '0' cs
    else if c == '_' then if before == '0' then behindZeros? '_' cs else none
    else if c == '.' then some (before :: c :: cs)
    else if isAsciiDigit c then some (c :: cs)
    else none

/-- A whole number without the zeros that start it; those behind a minus sign stay. -/
def withoutZeros? : List Char → Option (List Char)
  | [] => none
  | c :: cs =>
    if c == '0' then behindZeros? '0' cs
    else if isAsciiDigit c || c == '-' then some (c :: cs)
    else none

/-- A number without a fraction of zeros. -/
def withoutFraction (cs : List Char) : List Char :=
  match cs.dropWhile (· != '.') with
  | '.' :: zeros => if zeros.all (· == '0') then cs.takeWhile (· != '.') else cs
  | _ => cs

/-- Digits without a zero in front, or a lone zero. -/
def isPlainWhole : List Char → Bool
  | ['0'] => true
  | '0' :: _ => false
  | cs => !cs.isEmpty && cs.all isAsciiDigit

def wholeOfText (s : String) : Except Objection Int :=
  let cs := trim s.toList
  let cs := if cs.head? == some '+' then cs.drop 1 else cs
  match withoutZeros? cs with
  | none => .error .wholeText
  | some cs =>
    let cs := withoutFraction cs
    let cs := (withoutUnderscores? cs).getD cs
    let (negative, ds) := match cs with
      | '-' :: ds => (true, ds)
      | ds => (false, ds)
    if !isPlainWhole ds then .error .wholeText
    else if longestWhole < cs.length then .error .wholeTooLong
    else .ok (if negative then -(natOfDigits ds : Int) else natOfDigits ds)

def real : Value → Checked Float
  | .whole i =>
    let x := Float.ofInt i
    if Scalar.isFinite x then .passed x else .object .realType
  | .bool b => .passed (if b then 1.0 else 0.0)
  | .real x => .passed x
  | .text s =>
    match realOfText? s with
    | some x => .passed x
    | none => .object .realText
  | _ => .object .realType

/-- A real without fraction; beyond the words it counts as having one. -/
def wholeOfReal (x : Float) : Except Objection Int :=
  if !Scalar.isFinite x then .error .notFinite
  else if !Scalar.isWhole x then .error .wholeFraction
  else if -9223372036854775808.0 < x ∧ x < 9223372036854775808.0 then .ok (Given.cut x)
  else .error .wholeFraction

def ofExcept {β : Type} : Except Objection β → Checked β
  | .ok b => .passed b
  | .error o => .object o

def whole : Value → Checked Int
  | .whole i => .passed i
  | .bool b => .passed (if b then 1 else 0)
  | .real x => ofExcept (wholeOfReal x)
  | .text s => ofExcept (wholeOfText s)
  | _ => .object .wholeType

def truths : List String := ["1", "on", "t", "true", "y", "yes"]

def untruths : List String := ["0", "off", "f", "false", "n", "no"]

def truthOfWhole (i : Int) : Checked Bool :=
  if i = 0 then .passed false else if i = 1 then .passed true else .object .truthText

def truth : Value → Checked Bool
  | .bool b => .passed b
  | .whole i => if Word.Holds i then truthOfWhole i else .object .truthType
  | .real x =>
    match wholeOfReal x with
    | .ok i => truthOfWhole i
    | .error _ => .object .truthType
  | .text s =>
    if truths.contains s.toLower then .passed true
    else if untruths.contains s.toLower then .passed false
    else .object .truthText
  | _ => .object .truthType

end BlockStep.Lax
