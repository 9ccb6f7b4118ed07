import BlockStep.Document
import BlockStep.Fault
import BlockStep.Text.Lines
import BlockStep.Text.Numeral

namespace BlockStep.Override

open Text

def isQuotedBy (quote : Char) (cs : List Char) : Bool :=
  cs.head? == some quote && cs.getLast? == some quote

/-- The values that words stand for, in small letters. -/
def word? (s : String) : Option Value :=
  match s with
  | "true" => some (.bool true)
  | "false" => some (.bool false)
  | "none" | "null" => some .null
  | "nan" => some (.real (0.0 / 0.0))
  | "inf" | "+inf" | "infinity" | "+infinity" => some (.real (1.0 / 0.0))
  | "-inf" | "-infinity" => some (.real (-1.0 / 0.0))
  | _ => none

/-- What the text of a value stands for: a word, a number, a text between quotes, or itself. -/
def value (raw : List Char) : Value :=
  let cs := strip raw
  match word? (String.ofList (lowerAscii cs)) with
  | some v => v
  | none =>
    match whole? cs with
    | some i => .whole i
    | none =>
      match real? cs with
      | some x => .real x
      | none =>
        if isQuotedBy '"' cs || isQuotedBy '\'' cs then .text (String.ofList (cs.drop 1).dropLast)
        else .text (String.ofList cs)

/-- The text before the first equals sign and the text behind it. -/
def split? (cs : List Char) : Option (List Char × List Char) :=
  match cs.dropWhile (· != '=') with
  | [] => none
  | _ :: rest => some (cs.takeWhile (· != '='), rest)

/-- The segments of a path; empty ones do not count. -/
def segments (path : List Char) : List String :=
  (((strip path).splitOn '.').filter fun seg => !seg.isEmpty).map String.ofList

/-- The mapping under a key, made where there is none. -/
def child (key : String) (entries : Keyed Value) : Value :=
  match Keyed.lookup key entries with
  | none | some .null => .map []
  | some v => v

/--
Sets a value at a path. A mapping on the way is made, and stands in the document, before it is known
whether the rest of the path can be gone; the document is given as it stands at the end, also after
a fault.
-/
def assign (item : String) (v : Value) : List String → Value → Value × Except Fault Unit
  | [], document => (document, .error (.overridePath item))
  | [key], .map entries => (.map (Keyed.put key v entries), .ok ())
  | [_], document => (document, .error (.overrideTarget item))
  | key :: path, .map entries =>
    let (below, outcome) := assign item v path (child key entries)
    (.map (Keyed.put key below entries), outcome)
  | key :: _, document => (document, .error (.overrideTraverse item key))

def apply (document : Value) (item : String) : Value × Except Fault Unit :=
  match split? item.toList with
  | none => (document, .error (.overrideForm item))
  | some (path, raw) => assign item (value raw) (segments path) document

/-- Applies overrides in order up to the first that fails; also the document as far as it came. -/
def applyAll (document : Value) : List String → Value × Except Fault Unit
  | [] => (document, .ok ())
  | item :: rest =>
    match apply document item with
    | (document, .ok ()) => applyAll document rest
    | (document, .error e) => (document, .error e)

/-- The overrides in a file, one on each line; blank lines and comments are left out. -/
def ofLines (text : String) : List String :=
  (((breakLines text.toList).map strip).filter fun l => !l.isEmpty && l.head? != some '#').map
    String.ofList

theorem split?_eq_none_iff {cs : List Char} : split? cs = none ↔ '=' ∉ cs := by
  induction cs with
  | nil => simp [split?]
  | cons c cs ih =>
    by_cases h : c = '='
    · simp [split?, h]
    · simp only [split?] at ih ⊢
      simp only [List.mem_cons, Ne.symm h, false_or, ← ih]
      cases hd : cs.dropWhile (· != '=') <;> simp [h, hd]

end BlockStep.Override
