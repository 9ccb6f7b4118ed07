import BlockStep.Keyed

namespace BlockStep

inductive Value where
  | null
  | bool (b : Bool)
  | whole (i : Int)
  | real (x : Float)
  | text (s : String)
  | list (items : List Value)
  | map (entries : List (String × Value))

namespace Value

instance : Inhabited Value := ⟨null⟩

/-- Zero, empty and missing values count as untrue. -/
def isTrue : Value → Bool
  | null => false
  | bool b => b
  | whole i => i != 0
  | real x => x != 0.0
  | text s => !s.isEmpty
  | list items => !items.isEmpty
  | map entries => !entries.isEmpty

/-- The value a path of keys leads to. -/
def get? : List String → Value → Option Value
  | [], v => some v
  | key :: path, .map entries => (Keyed.lookup key entries).bind (get? path)
  | _ :: _, _ => none

end Value

end BlockStep
