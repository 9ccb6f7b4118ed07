import BlockStep.Text.Lines
import BlockStep.Yaml.Flow

namespace BlockStep.Yaml

/-- Nothing or a comment. -/
def isOver (cs : List Char) : Bool :=
  match dropGaps cs with
  | [] => true
  | c :: _ => c == '#'

/-- A key and what follows its colon. -/
def keyOf? (cs : List Char) : Option (Value × List Char) :=
  match cs with
  | '"' :: _ | '\'' :: _ => do
    let (key, rest, _) ← quoted? cs []
    match dropGaps rest with
    | ':' :: rest => if endsAtColon false rest then some (key, rest) else none
    | _ => none
  | _ =>
    if startsPlain false cs then
      match plainRun false ' ' cs with
      | (taken, ':' :: rest) => some (resolve (trimEnd taken), rest)
      | _ => none
    else none

/-- The pieces of a plain scalar that goes on over deeper lines; none if one of them holds a key. -/
def blockPieces (above : Int) (cs : List Char) : List Line → Option (List (List Char) × List Line)
  | [] =>
    let (taken, rest) := plainRun false ' ' cs
    if isOver rest then some ([trimEnd taken], []) else none
  | l :: ls =>
    let (taken, rest) := plainRun false ' ' cs
    if !isOver rest then none
    else if !(dropGaps rest).isEmpty then some ([trimEnd taken], l :: ls)
    else if l.isBlank then do
      let (pieces, ls) ← blockPieces above [] ls
      some (trimEnd taken :: pieces, ls)
    else if above < l.indent && !l.isComment then do
      let (pieces, ls) ← blockPieces above l.text ls
      some (trimEnd taken :: pieces, ls)
    else some ([trimEnd taken], l :: ls)

/-- A node that starts behind a key or a dash, or on a line of its own, and is no block. -/
def inlineNode (fuel : Nat) (above : Int) (cs : List Char) (ls : List Line) :
    Option (Node × List Line) :=
  match cs with
  | '"' :: _ | '\'' :: _ => do
    let (v, rest, ls) ← quoted? cs ls
    if isOver rest then some (.scalar v, ls) else none
  | '[' :: _ | '\x7b' :: _ => do
    let (node, rest, ls) ← flowNode fuel cs ls
    if isOver rest then some (node, ls) else none
  | _ =>
    if startsPlain false cs then do
      let (pieces, ls) ← blockPieces above cs ls
      some (.scalar (resolve (fold (withoutEmptyEnd pieces))), ls)
    else none

mutual

/-- The node on the lines deeper than `above`; without such lines it is null. -/
def blockNode : Nat → Int → List Line → Option (Node × List Line)
  | 0, _, _ => none
  | fuel + 1, above, ls =>
    match skipSilent ls with
    | [] => some (.scalar .null, [])
    | l :: ls =>
      if l.indent ≤ above then some (.scalar .null, l :: ls)
      else if l.text.head? == some '\t' then none
      else if l.isItem then (blockItems fuel l.indent (l :: ls)).map fun e => (.list e.1, e.2)
      else if (keyOf? l.text).isSome then
        (blockEntries fuel l.indent [] (l :: ls)).map fun e => (.map e.1, e.2)
      else inlineNode fuel above l.text ls

/-- The items of a list whose dashes stand at `column`. -/
def blockItems : Nat → Nat → List Line → Option (List Node × List Line)
  | 0, _, _ => none
  | fuel + 1, column, ls =>
    match skipSilent ls with
    | [] => some ([], [])
    | l :: ls =>
      if column < l.indent then none
      else if l.indent = column ∧ l.isItem then do
        let body := dropGaps (l.text.drop 1)
        let start := column + (l.text.length - body.length)
        let (item, ls) ←
          if isOver body then blockNode fuel column ls
          else blockNode fuel column (⟨start, body⟩ :: ls)
        let (items, ls) ← blockItems fuel column ls
        some (item :: items, ls)
      else some ([], l :: ls)

/-- The value of a key at `column` from what follows its colon. -/
def blockValue : Nat → Nat → List Char → List Line → Option (Node × List Line)
  | 0, _, _, _ => none
  | fuel + 1, column, rest, ls =>
    if !isOver rest then inlineNode fuel column (dropGaps rest) ls
    else
      match skipSilent ls with
      | [] => some (.scalar .null, [])
      | l :: ls =>
        if l.indent = column ∧ l.isItem then
          (blockItems fuel column (l :: ls)).map fun e => (.list e.1, e.2)
        else blockNode fuel column (l :: ls)

/-- The entries of a mapping whose keys stand at `column`, where `seen` came before. -/
def blockEntries : Nat → Nat → List (Value × Node) → List Line →
    Option (List (Value × Node) × List Line)
  | 0, _, _, _ => none
  | fuel + 1, column, seen, ls =>
    match skipSilent ls with
    | [] => some (seen, [])
    | l :: ls =>
      if column < l.indent then none
      else if l.indent < column then some (seen, l :: ls)
      else do
        let (key, rest) ← keyOf? l.text
        if hasKey key seen then none
        let (value, ls) ← blockValue fuel column rest ls
        blockEntries fuel column (seen ++ [(key, value)]) ls

end

def isMarker (mark : String) (l : Line) : Bool :=
  l.indent == 0 && (l.text == mark.toList || (mark ++ " ").toList.isPrefixOf l.text)

/-- The lines of the only document of a text; none if there are more. -/
def documentLines? (ls : List Line) : Option (List Line) :=
  let body := match skipSilent ls with
    | l :: rest => if isMarker "---" l then Line.mk 4 (dropGaps (l.text.drop 3)) :: rest else ls
    | [] => []
  let isEnd (l : Line) : Bool := isMarker "---" l || isMarker "..." l
  let behind := body.dropWhile fun l => !isEnd l
  if behind.all fun l => l.isSilent || isMarker "..." l then some (body.takeWhile fun l => !isEnd l)
  else none

/-- Characters that may stand in a text. -/
def isAllowed (c : Char) : Bool :=
  let n := c.toNat
  n == 0x09 || n == 0x0A || n == 0x0D || 0x20 ≤ n && n ≤ 0x7E || n == 0x85 || 0xA0 ≤ n && n ≤ 0xFFFD
    || 0x10000 ≤ n

/-- The node of a text; none if the text is not well formed. -/
def parse? (text : String) : Option Node := do
  let cs := text.toList
  let cs := if cs.head? == some '\uFEFF' then cs.drop 1 else cs
  if !cs.all isAllowed then none
  let ls ← documentLines? ((Text.breakLines cs).map Line.ofText)
  let (node, ls) ← blockNode (4 * cs.length + 8) (-1) ls
  if (skipSilent ls).isEmpty then some node else none

end BlockStep.Yaml
