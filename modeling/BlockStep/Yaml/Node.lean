import BlockStep.Document

namespace BlockStep.Yaml

inductive Node where
  | scalar (v : Value)
  | list (items : List Node)
  | map (entries : List (Value × Node))

instance : Inhabited Node := ⟨.scalar .null⟩

/-- Keys that a mapping cannot hold both of: equal texts or equal numbers, where truth values count
as numbers. -/
def sameKey : Value → Value → Bool
  | .null, .null => true
  | .text s, .text t => s == t
  | v, w =>
    match number v, number w with
    | some (.inl i), some (.inl j) => i == j
    | some (.inl i), some (.inr y) => Float.ofInt i == y
    | some (.inr x), some (.inl j) => x == Float.ofInt j
    | some (.inr x), some (.inr y) => x == y
    | _, _ => false
where
  number : Value → Option (Int ⊕ Float)
    | .bool b => some (.inl (if b then 1 else 0))
    | .whole i => some (.inl i)
    | .real x => some (.inr x)
    | _ => none

def hasKey (key : Value) (entries : List (Value × Node)) : Bool :=
  entries.any fun e => sameKey key e.1

namespace Node

/-- A mapping with keys that are not texts. -/
def hasForeignKey : Node → Bool
  | map entries => entries.any fun e => match e.1 with
    | .text _ => false
    | _ => true
  | _ => false

mutual

/-- The document of a node, without entries whose keys are not texts. -/
def toValue : Node → Value
  | scalar v => v
  | list items => .list (toValues items)
  | map entries => .map (toEntries entries)

def toValues : List Node → List Value
  | [] => []
  | n :: rest => n.toValue :: toValues rest

def toEntries : List (Value × Node) → List (String × Value)
  | [] => []
  | (.text key, n) :: rest => (key, n.toValue) :: toEntries rest
  | _ :: rest => toEntries rest

end

end Node

end BlockStep.Yaml
