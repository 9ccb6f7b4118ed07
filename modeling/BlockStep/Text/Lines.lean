import BlockStep.Text.Character

namespace BlockStep.Text

def stripBy (blank : Char → Bool) (cs : List Char) : List Char :=
  ((cs.dropWhile blank).reverse.dropWhile blank).reverse

def strip (cs : List Char) : List Char := stripBy isBlank cs

/-- A text with those letters small that have an ASCII form. -/
def lower (s : String) : String := s.map small

/-- Texts between line ends, each of which is a line feed, a carriage return or both. -/
def breakLines : List Char → List (List Char)
  | [] => [[]]
  | '\r' :: '\n' :: cs => [] :: breakLines cs
  | c :: cs =>
    if c == '\n' || c == '\r' then [] :: breakLines cs
    else
      match breakLines cs with
      | l :: ls => (c :: l) :: ls
      | [] => [[c]]

end BlockStep.Text
