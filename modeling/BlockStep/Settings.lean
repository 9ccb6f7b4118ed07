import BlockStep.Act
import BlockStep.Config.Check
import BlockStep.Override
import BlockStep.Yaml.Block

namespace BlockStep.Settings

/-- Why there is no configuration. -/
inductive Refusal where
  /-- The text is no YAML. -/
  | malformed
  | failed (cause : Fault)
  | objected (complaints : List Complaint)

/-- The document of a settings file; an empty file is an empty mapping. -/
def documentOf (path : String) (node : Yaml.Node) : Except Refusal Value :=
  match node with
  | .scalar .null => .ok (.map [])
  | .map _ => .ok node.toValue
  | _ => .error (.failed (.settingsRoot path))

def load (path text : String) (overrides : List String) : Except Refusal (Config Float) := do
  match Yaml.parse? text with
  | none => .error .malformed
  | some node =>
    let document ← documentOf path node
    let (document, applied) := Override.applyAll document overrides
    match applied with
    | .error e => .error (.failed e)
    | .ok () =>
      if node.hasForeignKey then .error (.failed .foreignKey)
      else
        match Config.check document with
        | .passed c => .ok c
        | .refused complaints => .error (.objected complaints)

/-- What is told about a configuration that has been read. -/
def told {α : Type} (path : String) (overrides : List String) : Event α :=
  .configRead path overrides.length

end BlockStep.Settings
