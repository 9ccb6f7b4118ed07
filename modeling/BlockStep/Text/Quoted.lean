import BlockStep.Text.Character
import BlockStep.Text.Digit

namespace BlockStep.Text

def filledHex (width : Nat) (n : Nat) : String :=
  let digits := hexDigits n
  String.ofList (List.replicate (width - digits.length) '0') ++ digits

/-- The UTF-16 units of a character. -/
def units16 (c : Char) : List Nat :=
  let n := c.toNat
  if n < 0x10000 then [n]
  else [0xD800 + (n - 0x10000) / 0x400, 0xDC00 + (n - 0x10000) % 0x400]

def jsonChar (c : Char) : String :=
  match c.toNat with
  | 0x22 => "\\\""
  | 0x5C => "\\\\"
  | 0x08 => "\\b"
  | 0x09 => "\\t"
  | 0x0A => "\\n"
  | 0x0C => "\\f"
  | 0x0D => "\\r"
  | n =>
    if 0x20 ≤ n && n ≤ 0x7E then c.toString
    else String.join ((units16 c).map fun u => "\\u" ++ filledHex 4 u)

def jsonString (s : String) : String :=
  "\"" ++ String.join (s.toList.map jsonChar) ++ "\""

def listedChar (quote : Char) (c : Char) : String :=
  match c.toNat with
  | 0x5C => "\\\\"
  | 0x09 => "\\t"
  | 0x0A => "\\n"
  | 0x0D => "\\r"
  | n =>
    if c == quote then "\\" ++ c.toString
    else if !isHidden c then c.toString
    else if n < 0x100 then "\\x" ++ filledHex 2 n
    else if n < 0x10000 then "\\u" ++ filledHex 4 n
    else "\\U" ++ filledHex 8 n

def listedString (s : String) : String :=
  let quote := if s.contains '\'' && !s.contains '"' then '"' else '\''
  quote.toString ++ String.join (s.toList.map (listedChar quote)) ++ quote.toString

end BlockStep.Text
