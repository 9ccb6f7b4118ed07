namespace BlockStep.Yaml

structure Line where
  /-- The column of the first character that is not a space. -/
  indent : Nat
  text : List Char

/-- Spaces and tabs separate; only spaces indent. -/
def isGap (c : Char) : Bool := c == ' ' || c == '\t'

def dropGaps (cs : List Char) : List Char := cs.dropWhile isGap

def trimEnd (cs : List Char) : List Char := (cs.reverse.dropWhile isGap).reverse

namespace Line

def ofText (cs : List Char) : Line := ⟨(cs.takeWhile (· == ' ')).length, cs.dropWhile (· == ' ')⟩

def isBlank (l : Line) : Bool := (dropGaps l.text).isEmpty

def isComment (l : Line) : Bool := l.text.head? == some '#'

/-- Nothing but a comment. -/
def isSilent (l : Line) : Bool := l.isBlank || l.isComment

/-- An item of a list: a dash, and a gap or the end behind it. -/
def isItem (l : Line) : Bool :=
  match l.text with
  | ['-'] => true
  | '-' :: c :: _ => isGap c
  | _ => false

end Line

/-- The lines that are left once silent ones are skipped. -/
def skipSilent (ls : List Line) : List Line := ls.dropWhile Line.isSilent

/-- Pieces of a scalar on following lines: a line end becomes a space, and empty pieces stand for
line ends that are kept. -/
def fold : List (List Char) → List Char
  | [] => []
  | [piece] => piece
  | piece :: rest => piece ++ glue 0 rest
where
  /-- What follows a piece after `n` empty ones. -/
  glue (n : Nat) : List (List Char) → List Char
    | [] => List.replicate n '\n'
    | [] :: rest => if rest.isEmpty then (if n = 0 then [' '] else List.replicate n '\n')
      else glue (n + 1) rest
    | piece :: rest => (if n = 0 then [' '] else List.replicate n '\n') ++ piece ++ glue 0 rest

end BlockStep.Yaml
