import BlockStep.Yaml.Line
import BlockStep.Yaml.Scalar

namespace BlockStep.Yaml

/-- What stands before the closing quote of a line and what stands behind it, if it closes there. -/
def closing? (quote : Char) : List Char → Option (List Char × List Char)
  | [] => none
  | '\\' :: c :: cs =>
    if quote == '"' then (closing? quote cs).map fun e => ('\\' :: c :: e.1, e.2)
    else (closing? quote (c :: cs)).map fun e => ('\\' :: e.1, e.2)
  | '\'' :: '\'' :: cs =>
    if quote == '\'' then (closing? quote cs).map fun e => ('\'' :: '\'' :: e.1, e.2)
    else (closing? quote cs).map fun e => ('\'' :: '\'' :: e.1, e.2)
  | c :: cs =>
    if c == quote then some ([], cs) else (closing? quote cs).map fun e => (c :: e.1, e.2)

def undoubled : List Char → List Char
  | '\'' :: '\'' :: cs => '\'' :: undoubled cs
  | c :: cs => c :: undoubled cs
  | [] => []

/-- The character that a letter behind a backslash stands for. -/
def escape? : Char → Option Char
  | '0' => some '\x00'
  | 'a' => some '\x07'
  | 'b' => some '\x08'
  | 't' => some '\t'
  | '\t' => some '\t'
  | 'n' => some '\n'
  | 'v' => some '\x0b'
  | 'f' => some '\x0c'
  | 'r' => some '\r'
  | 'e' => some '\x1b'
  | ' ' => some ' '
  | '"' => some '"'
  | '/' => some '/'
  | '\\' => some '\\'
  | 'N' => some '\u0085'
  | '_' => some '\u00a0'
  | 'L' => some '\u2028'
  | 'P' => some '\u2029'
  | _ => none

/-- The number of hexadecimal digits behind an escape letter. -/
def width? : Char → Option Nat
  | 'x' => some 2
  | 'u' => some 4
  | 'U' => some 8
  | _ => none

def unescape? (cs : List Char) : Option (List Char) :=
  match cs with
  | [] => some []
  | ['\\'] => none
  | '\\' :: c :: rest =>
    match escape? c with
    | some d => (unescape? rest).map (d :: ·)
    | none =>
      match width? c with
      | some n =>
        let digits := rest.take n
        if digits.length = n ∧ digits.all isHex then
          (unescape? (rest.drop n)).map (Char.ofNat (natOfBase 16 digits) :: ·)
        else none
      | none => none
  | c :: rest => (unescape? rest).map (c :: ·)
termination_by cs.length
decreasing_by
  all_goals simp_all +arith

/-- Two pieces of which the first ends in a lone backslash are joined without a space. -/
def joinEscaped : List (List Char) → List (List Char)
  | [] => []
  | piece :: rest =>
    match joinEscaped rest with
    | [] => [piece]
    | next :: others =>
      if (piece.reverse.takeWhile (· == '\\')).length % 2 = 1 then
        (piece.dropLast ++ next) :: others
      else piece :: next :: others

def unquote? (quote : Char) (pieces : List (List Char)) : Option (List Char) :=
  if quote == '"' then unescape? (fold (joinEscaped pieces)) else some (undoubled (fold pieces))

/-- The pieces of a scalar whose opening quote stands before `cs`, what follows it on its last line,
and the lines behind. -/
def pieces? (quote : Char) (cs : List Char) :
    List Line → Option (List (List Char) × List Char × List Line)
  | [] => (closing? quote cs).map fun e => ([e.1], e.2, [])
  | l :: ls =>
    match closing? quote cs with
    | some e => some ([e.1], e.2, l :: ls)
    | none => (pieces? quote (dropGaps l.text) ls).map fun e => (trimEnd cs :: e.1, e.2)

/-- A quoted scalar from its opening quote on. -/
def quoted? : List Char → List Line → Option (Value × List Char × List Line)
  | c :: cs, ls => do
    if c != '"' && c != '\'' then none
    let (pieces, rest, ls) ← pieces? c cs ls
    let text ← unquote? c pieces
    some (.text (String.ofList text), rest, ls)
  | [], _ => none

end BlockStep.Yaml
