import BlockStep.Yaml.Node
import BlockStep.Yaml.Quoted

namespace BlockStep.Yaml

def isBracket (c : Char) : Bool := c == ',' || c == '[' || c == ']' || c == '\x7b' || c == '\x7d'

/-- What stands at a colon that ends a scalar: a gap, the end, or between brackets a bracket. -/
def endsAtColon (inFlow : Bool) : List Char → Bool
  | [] => true
  | c :: _ => isGap c || inFlow && isBracket c

/-- A plain scalar up to its end on a line, where `before` is the character before it. -/
def plainRun (inFlow : Bool) (before : Char) : List Char → List Char × List Char
  | [] => ([], [])
  | c :: cs =>
    if c == ':' && endsAtColon inFlow cs || c == '#' && isGap before || inFlow && isBracket c then
      ([], c :: cs)
    else
      let (taken, rest) := plainRun inFlow c cs
      (c :: taken, rest)

/-- Characters that start no plain scalar. -/
def isMark (c : Char) : Bool := isBracket c || "#&*!|>'\"%@`".contains c

def startsPlain (inFlow : Bool) : List Char → Bool
  | [] => false
  | c :: cs => !(isMark c || isGap c) &&
      !((c == '-' || c == '?' || c == ':') && endsAtColon inFlow cs)

/-- The place of the next character that is neither a gap nor in a comment. -/
def advance (cs : List Char) : List Line → List Char × List Line
  | [] =>
    match dropGaps cs with
    | '#' :: _ => ([], [])
    | rest => (rest, [])
  | l :: ls =>
    match dropGaps cs with
    | [] => advance l.text ls
    | '#' :: _ => advance l.text ls
    | rest => (rest, l :: ls)

abbrev Rest := List Char × List Line

/-- Pieces of a plain scalar between brackets, which goes on over line ends. -/
def plainPieces (before : Char) (cs : List Char) : List Line → List (List Char) × Rest
  | [] =>
    let (taken, rest) := plainRun true before cs
    ([trimEnd taken], (rest, []))
  | l :: ls =>
    let (taken, rest) := plainRun true before cs
    if rest.isEmpty && !l.isComment then
      let (pieces, rest) := plainPieces ' ' (dropGaps l.text) ls
      (trimEnd taken :: pieces, rest)
    else ([trimEnd taken], (rest, l :: ls))

/-- Empty pieces at the end are no part of a scalar. -/
def withoutEmptyEnd (pieces : List (List Char)) : List (List Char) :=
  (pieces.reverse.dropWhile List.isEmpty).reverse

def flowPlain (cs : List Char) (ls : List Line) : Option (Value × Rest) :=
  if startsPlain true cs then
    let (pieces, rest) := plainPieces ' ' cs ls
    some (resolve (fold (withoutEmptyEnd pieces)), rest)
  else none

/-- A scalar between brackets. -/
def flowScalar (cs : List Char) (ls : List Line) : Option (Value × Rest) :=
  match cs with
  | '"' :: _ | '\'' :: _ => (quoted? cs ls).map fun e => (e.1, e.2.1, e.2.2)
  | _ => flowPlain cs ls

/-- The value under which a node is a key. -/
def Node.key? : Node → Option Value
  | .scalar v => some v
  | _ => none

mutual

/-- A node between brackets. -/
def flowNode : Nat → List Char → List Line → Option (Node × Rest)
  | 0, _, _ => none
  | fuel + 1, cs, ls =>
    match cs with
    | '[' :: cs => flowItems fuel cs ls
    | '\x7b' :: cs => (flowEntries fuel [] cs ls).map fun e => (.map e.1, e.2)
    | _ => (flowScalar cs ls).map fun e => (.scalar e.1, e.2)

/-- What follows a colon: a node, or nothing before the next comma or bracket. -/
def flowValue : Nat → List Char → List Line → Option (Node × Rest)
  | 0, _, _ => none
  | fuel + 1, cs, ls =>
    match advance cs ls with
    | (c :: cs, ls) =>
      if c == ',' || c == ']' || c == '\x7d' then some (.scalar .null, (c :: cs, ls))
      else flowNode fuel (c :: cs) ls
    | ([], _) => none

/-- A node, or a single entry of a mapping without brackets. -/
def flowItem : Nat → List Char → List Line → Option (Node × Rest)
  | 0, _, _ => none
  | fuel + 1, cs, ls => do
    let (node, rest, ls) ← flowNode fuel cs ls
    match advance rest ls with
    | (':' :: rest, ls) =>
      let key ← node.key?
      let (value, rest) ← flowValue fuel rest ls
      some (.map [(key, value)], rest)
    | rest => some (node, rest)

/-- The items up to the closing bracket. -/
def flowItems : Nat → List Char → List Line → Option (Node × Rest)
  | 0, _, _ => none
  | fuel + 1, cs, ls =>
    match advance cs ls with
    | (']' :: cs, ls) => some (.list [], (cs, ls))
    | (cs, ls) => do
      let (item, rest, ls) ← flowItem fuel cs ls
      match advance rest ls with
      | (',' :: rest, ls) =>
        match ← flowItems fuel rest ls with
        | (.list items, rest) => some (.list (item :: items), rest)
        | _ => none
      | (']' :: rest, ls) => some (.list [item], (rest, ls))
      | _ => none

/-- The entries up to the closing brace, where `seen` came before. -/
def flowEntries : Nat → List (Value × Node) → List Char → List Line →
    Option (List (Value × Node) × Rest)
  | 0, _, _, _ => none
  | fuel + 1, seen, cs, ls =>
    match advance cs ls with
    | ('\x7d' :: cs, ls) => some (seen, (cs, ls))
    | (cs, ls) => do
      let (node, rest, ls) ← flowNode fuel cs ls
      let key ← node.key?
      if hasKey key seen then none
      let (value, rest, ls) ← match advance rest ls with
        | (':' :: rest, ls) => flowValue fuel rest ls
        | rest => some (.scalar .null, rest)
      let seen := seen ++ [(key, value)]
      match advance rest ls with
      | (',' :: rest, ls) => flowEntries fuel seen rest ls
      | ('\x7d' :: rest, ls) => some (seen, (rest, ls))
      | _ => none

end

end BlockStep.Yaml
