import BlockStep.Document
import BlockStep.Text.Numeral

namespace BlockStep.Json

inductive Token where
  | openList
  | openMap
  | closeList
  | closeMap
  | comma
  | colon
  | atom (v : Value)

/-- The characters of UTF-16 units; a half of a pair that stands alone is no character. -/
def ofUnits16 : List Nat → List Char
  | a :: b :: rest =>
    if 0xD800 ≤ a && a < 0xDC00 && 0xDC00 ≤ b && b < 0xE000 then
      Char.ofNat (0x10000 + (a - 0xD800) * 0x400 + (b - 0xDC00)) :: ofUnits16 rest
    else Char.ofNat a :: ofUnits16 (b :: rest)
  | [a] => [Char.ofNat a]
  | [] => []

def hexValue? (c : Char) : Option Nat :=
  if Text.isAsciiDigit c then some (c.toNat - 48)
  else if 'a' ≤ c.toLower && c.toLower ≤ 'f' then some (c.toLower.toNat - 87)
  else none

/-- Where the reader is between two characters; what it has read is kept in reverse. -/
inductive Place where
  | between
  | word (read : List Char)
  /-- Inside a text, with the characters so far. -/
  | text (read : List Char)
  | escape (read : List Char)
  /-- Inside the four digits of a UTF-16 unit, behind other units. -/
  | unit (read : List Char) (units : List Nat) (value left : Nat)
  /-- Behind a unit, which a second one may complete. -/
  | units (read : List Char) (units : List Nat)
  | unitsEscape (read : List Char) (units : List Nat)

def isBlank (c : Char) : Bool := c == ' ' || c == '\t' || c == '\n' || c == '\r'

def mark? : Char → Option Token
  | '[' => some .openList
  | ']' => some .closeList
  | '\x7b' => some .openMap
  | '\x7d' => some .closeMap
  | ',' => some .comma
  | ':' => some .colon
  | _ => none

/-- A number is whole if it has neither a point nor an exponent. -/
def number? (cs : List Char) : Option Value :=
  let (negative, digits) := Text.splitSign cs
  if !digits.isEmpty && digits.all Text.isAsciiDigit then
    let n : Int := Text.natOfDigits digits
    some (.whole (if negative then -n else n))
  else (Text.unsignedReal? digits).map fun x => .real (if negative then -x else x)

def word? (cs : List Char) : Option Value :=
  match String.ofList cs with
  | "null" => some .null
  | "true" => some (.bool true)
  | "false" => some (.bool false)
  | "NaN" => some (.real (0.0 / 0.0))
  | "Infinity" => some (.real (1.0 / 0.0))
  | "-Infinity" => some (.real (-1.0 / 0.0))
  | _ => number? cs

def escaped : Char → Char
  | 'b' => '\x08'
  | 'f' => '\x0c'
  | 'n' => '\n'
  | 'r' => '\r'
  | 't' => '\t'
  | c => c

/-- The characters of a text, kept in reverse, with pending units behind them. -/
def settled (read : List Char) (units : List Nat) : List Char :=
  (ofUnits16 units.reverse).reverse ++ read

/-- The place after a character outside texts and words, and the token that it is. -/
def startOf (c : Char) : Place × List Token :=
  match mark? c with
  | some t => (.between, [t])
  | none =>
    if isBlank c then (.between, []) else if c == '"' then (.text [], []) else (.word [c], [])

def endOf (read : List Char) : Place × List Token :=
  (.between, [.atom (.text (String.ofList read.reverse))])

/-- The place after a character, and the tokens that end with it. -/
def read? : Place → Char → Option (Place × List Token)
  | .between, c => some (startOf c)
  | .word read, c =>
    if (mark? c).isNone && !isBlank c && c != '"' then some (.word (c :: read), [])
    else
      let (place, tokens) := startOf c
      (word? read.reverse).map fun v => (place, .atom v :: tokens)
  | .text read, c =>
    if c == '"' then some (endOf read)
    else if c == '\\' then some (.escape read, [])
    else some (.text (c :: read), [])
  | .escape read, c =>
    if c == 'u' then some (.unit read [] 0 4, []) else some (.text (escaped c :: read), [])
  | .unit read units value left, c =>
    (hexValue? c).map fun d =>
      if left ≤ 1 then (.units read ((16 * value + d) :: units), [])
      else (.unit read units (16 * value + d) (left - 1), [])
  | .units read units, c =>
    if c == '\\' then some (.unitsEscape read units, [])
    else if c == '"' then some (endOf (settled read units))
    else some (.text (c :: settled read units), [])
  | .unitsEscape read units, c =>
    if c == 'u' then some (.unit read units 0 4, [])
    else some (.text (escaped c :: settled read units), [])

def tokensFrom : Place → List Char → Option (List Token)
  | .between, [] => some []
  | .word read, [] => (word? read.reverse).map fun v => [.atom v]
  | _, [] => none
  | place, c :: cs =>
    match read? place c with
    | some (place, tokens) => (tokensFrom place cs).map (tokens ++ ·)
    | none => none

def tokens? (cs : List Char) : Option (List Token) := tokensFrom .between cs

/-- An open bracket with what it holds so far, in reverse. -/
inductive Open where
  | list (items : List Value)
  | map (entries : List (String × Value))
  /-- A mapping behind a key. -/
  | entry (entries : List (String × Value)) (key : String)

/-- What has to come next. -/
inductive Next where
  | value
  /-- The first item, the first key, or the closing bracket. -/
  | first
  | key
  | colon
  /-- A comma or a closing bracket behind a value. -/
  | behind (v : Value)

abbrev Stack := List Open

/-- The start of a value. -/
def begin? (stack : Stack) : Token → Option (Stack × Next)
  | .atom v => some (stack, .behind v)
  | .openList => some (.list [] :: stack, .first)
  | .openMap => some (.map [] :: stack, .first)
  | _ => none

def key? : Stack → Token → Option (Stack × Next)
  | .map entries :: stack, .atom (.text key) => some (.entry entries key :: stack, .colon)
  | _, _ => none

def build? : Stack × Next → Token → Option (Stack × Next)
  | (stack, .value), t => begin? stack t
  | (.list _ :: stack, .first), .closeList => some (stack, .behind (.list []))
  | (.map _ :: stack, .first), .closeMap => some (stack, .behind (.map []))
  | (.map entries :: stack, .first), t => key? (.map entries :: stack) t
  | (stack, .first), t => begin? stack t
  | (stack, .key), t => key? stack t
  | (stack, .colon), .colon => some (stack, .value)
  | (.list items :: stack, .behind v), .comma => some (.list (v :: items) :: stack, .value)
  | (.list items :: stack, .behind v), .closeList =>
    some (stack, .behind (.list (v :: items).reverse))
  | (.entry entries key :: stack, .behind v), .comma =>
    some (.map ((key, v) :: entries) :: stack, .key)
  | (.entry entries key :: stack, .behind v), .closeMap =>
    some (stack, .behind (.map (Keyed.ofList ((key, v) :: entries).reverse)))
  | _, _ => none

def valueOf? (ts : List Token) : Option Value :=
  match ts.foldlM build? ([], .value) with
  | some ([], .behind v) => some v
  | _ => none

end BlockStep.Json

namespace BlockStep.Value

/-- The document of a JSON text. -/
def ofJson? (text : String) : Option Value := (Json.tokens? text.toList).bind Json.valueOf?

end BlockStep.Value
