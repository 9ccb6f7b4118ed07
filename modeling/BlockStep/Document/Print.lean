import BlockStep.Document
import BlockStep.Text.Quoted
import BlockStep.Text.Real

namespace BlockStep

namespace Value

/-- JSON has no undefined or infinite numbers; these words stand for them. -/
def jsonReal (x : Float) : String :=
  match Text.Binary.ofFloat x with
  | .undefined => "NaN"
  | .infinite negative => Text.signed negative "Infinity"
  | .finite .. => Text.shortest x

/-- Members on lines of their own, one step deeper than the brackets. -/
def block (depth : Nat) (start stop : String) (members : List String) : String :=
  if members.isEmpty then start ++ stop
  else
    let margin (d : Nat) : String := "\n" ++ String.ofList (List.replicate (2 * d) ' ')
    start ++ margin (depth + 1) ++ String.intercalate ("," ++ margin (depth + 1)) members
      ++ margin depth ++ stop

mutual

/-- JSON with two blanks for each depth and the keys of every mapping in order. -/
def indented (depth : Nat) : Value → String
  | null => "null"
  | bool b => if b then "true" else "false"
  | whole i => toString i
  | real x => jsonReal x
  | text s => Text.jsonString s
  | list items => block depth "[" "]" (indentedItems (depth + 1) items)
  | map entries =>
    block depth "\x7b" "\x7d" ((Keyed.sorted (indentedEntries (depth + 1) entries)).map fun e =>
      Text.jsonString e.1 ++ ": " ++ e.2)

def indentedItems (depth : Nat) : List Value → List String
  | [] => []
  | v :: rest => indented depth v :: indentedItems depth rest

def indentedEntries (depth : Nat) : List (String × Value) → List (String × String)
  | [] => []
  | (k, v) :: rest => (k, indented depth v) :: indentedEntries depth rest

end

/-- A mapping of texts as JSON on one line, keys in order. -/
def jsonTexts (entries : Keyed String) : String :=
  "\x7b" ++ String.intercalate ", " ((Keyed.sorted entries).map fun e =>
    Text.jsonString e.1 ++ ": " ++ Text.jsonString e.2) ++ "\x7d"

mutual

def listed : Value → String
  | null => "None"
  | bool b => if b then "True" else "False"
  | whole i => toString i
  | real x => Text.shortest x
  | text s => Text.listedString s
  | list items => "[" ++ String.intercalate ", " (listedItems items) ++ "]"
  | map entries => "\x7b" ++ String.intercalate ", " (listedEntries entries) ++ "\x7d"

def listedItems : List Value → List String
  | [] => []
  | v :: rest => listed v :: listedItems rest

def listedEntries : List (String × Value) → List String
  | [] => []
  | (k, v) :: rest => (Text.listedString k ++ ": " ++ listed v) :: listedEntries rest

end

end Value

end BlockStep
