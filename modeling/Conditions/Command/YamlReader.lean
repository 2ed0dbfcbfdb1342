import Conditions.Command.Content
import Conditions.Yaml.Document

/-!
# Documents in YAML

What a YAML document holds as far as it matters for conditions: its collections down to some depth.
-/

set_option autoImplicit false

namespace Conditions.Yaml
open Command (Content Raised ReadFault)

namespace Document

def shown (d : Document) (v : Value) : Unit → Except Raised Text :=
  fun () => (d.text v).mapError fun fault => ⟨fault.kind, fault.message⟩

def content (d : Document) : Nat → Value → Content
  | _, .null => .null
  | _, .string t => .text t
  | 0, v => .other (d.isTelling v) (d.shown v)
  | depth + 1, v =>
    let shown := d.shown v
    match d.collection? v with
    | some (.sequence elements) => .sequence (elements.map (content d depth)) shown
    | some (.mapping entries) =>
      .mapping (entries.map fun (k, v) => (content d depth k, content d depth v)) shown
    | some (.pairs entries) =>
      .sequence (entries.map fun _ => .other true fun () => .ok []) shown
    | some (.set _) | none => .other (d.isTelling v) shown

end Document

def notYaml : String := "the text is not a YAML document"

def reader : Command.Reader := fun t =>
  match read t with
  | .ok d => .ok (d.content 2 d.root)
  | .error .invalid => .error (.invalid notYaml)
  | .error (.scalar fault) => .error (.raised ⟨fault.kind, fault.message⟩)

end Conditions.Yaml
