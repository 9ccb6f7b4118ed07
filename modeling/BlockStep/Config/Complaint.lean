import BlockStep.Text.Real

namespace BlockStep

/-- A step on the way to a part of a configuration. -/
inductive Place where
  | section (name : String)
  | index (i : Nat)
deriving DecidableEq, Repr

/-- Rules of single sections beyond the types and bounds of their settings. -/
inductive Rule where
  | timeOrder (begin max : Float)
  | baryons
  | sixEntries (setting : String)
  | finiteEntries (setting : String)
  | fastKind
  | unknownSections (names : List String)

namespace Rule

def text : Rule → String
  | timeOrder begin max =>
    "timeline.time_max (" ++ Text.shortest max ++ ") must exceed time_begin ("
      ++ Text.shortest begin ++ ")"
  | baryons => "cosmology.omega_baryon cannot exceed omega0"
  | sixEntries setting => setting ++ " needs one entry per particle kind (6)"
  | finiteEntries setting => setting ++ " entries must be finite and non-negative"
  | fastKind => "pm.fast_particle_type must name a particle kind or be null"
  | unknownSections names => "Unknown configuration section(s): " ++ String.intercalate ", " names

end Rule

inductive Objection where
  | missing
  | notSection
  | realType
  | realText
  | wholeType
  | wholeText
  | wholeTooLong
  | wholeFraction
  | notFinite
  | truthType
  | truthText
  | notAbove
  | below
  | above
  | notList
  | notNamed
  | pathType
  | broken (rule : Rule)

namespace Objection

/-- The name under which an objection is reported. -/
def code : Objection → String
  | missing => "missing"
  | notSection => "model_type"
  | realType => "float_type"
  | realText => "float_parsing"
  | wholeType => "int_type"
  | wholeText => "int_parsing"
  | wholeTooLong => "int_parsing_size"
  | wholeFraction => "int_from_float"
  | notFinite => "finite_number"
  | truthType => "bool_type"
  | truthText => "bool_parsing"
  | notAbove => "greater_than"
  | below => "greater_than_equal"
  | above => "less_than_equal"
  | notList => "list_type"
  | notNamed => "literal_error"
  | pathType => "path_type"
  | broken _ => "value_error"

def message? : Objection → Option String
  | broken rule => some ("Value error, " ++ rule.text)
  | _ => none

end Objection

structure Complaint where
  place : List Place
  objection : Objection

/-- A value that has passed its checks, or all that is wrong with it. -/
inductive Checked (β : Type) where
  | passed (b : β)
  | refused (complaints : List Complaint)

namespace Checked

variable {β γ : Type}

def map (f : β → γ) : Checked β → Checked γ
  | passed b => passed (f b)
  | refused cs => refused cs

/-- Both are checked, whether the first passes or not. -/
def both (f : Checked (β → γ)) (x : Checked β) : Checked γ :=
  match f, x with
  | passed f, passed b => passed (f b)
  | passed _, refused cs => refused cs
  | refused cs, passed _ => refused cs
  | refused cs, refused ds => refused (cs ++ ds)

instance : Applicative Checked where
  pure := passed
  map := map
  seq f x := both f (x ())

def object (o : Objection) : Checked β := refused [⟨[], o⟩]

/-- Complaints about a part, told of the whole. -/
def within (p : Place) : Checked β → Checked β
  | passed b => passed b
  | refused cs => refused (cs.map fun c => { c with place := p :: c.place })

/-- A further check of what has passed. -/
def andThen (x : Checked β) (f : β → Checked γ) : Checked γ :=
  match x with
  | passed b => f b
  | refused cs => refused cs

/-- Checks all members of a list. -/
def all (f : Nat → β → Checked γ) (i : Nat) : List β → Checked (List γ)
  | [] => passed []
  | b :: rest => List.cons <$> f i b <*> all f (i + 1) rest

end Checked

end BlockStep
