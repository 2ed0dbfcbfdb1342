import Conditions.Json.Writer
import Conditions.Yaml.Merge
import Conditions.Yaml.Scalar
import Conditions.Yaml.SetOrder

/-!
# Documents

The value of a document is made from its graph. A collection is first there without its parts, and
waits for them in line; so a collection may be a part of itself, and of two faults the one that is
less deep inside is told.
-/

set_option autoImplicit false

namespace Conditions.Yaml

structure Document where
  root : Value
  collections : Array Collection
  deriving Repr, Inhabited

structure Building where
  graph : Graph
  values : Array (Option Value)
  collections : Array Collection
  waiting : List Nat

abbrev Builder := StateT Building (Except Fault)

def Tag.isCollection : Tag → Bool
  | .sequence | .mapping | .pairs | .set => true
  | _ => false

def Tag.isScalar : Tag → Bool
  | .null | .bool | .int | .float | .moment | .string | .binary => true
  | _ => false

namespace Builder

def scalar (number : Nat) : Builder Value := do
  let g := (← get).graph
  let tag := g.tag number
  if !tag.isScalar then throw .invalid
  let t ← g.text (g.size + 1) number
  match g.node number with
  | .scalar _ _ => scalarValue number tag t
  | _ => if tag = .moment then throw (.scalar .notText) else scalarValue number tag t

def value (number : Nat) : Builder Value := do
  let b ← get
  match (b.values[number]?).join with
  | some v => return v
  | none =>
    let tag := b.graph.tag number
    let v ← if tag.isCollection then do
        modify fun b => { b with waiting := b.waiting ++ [number] }
        pure (.collection number)
      else scalar number
    modify fun b => { b with values := b.values.setIfInBounds number (some v) }
    return v

def entries (number : Nat) : Builder (List (Value × Value)) := do
  let b ← get
  let graph ← b.graph.mergeFrom (b.graph.entryCount + 1) number []
  set { b with graph }
  (graph.entries number).foldlM (fun done (k, v) => do
    let key ← value k
    if !key.isKey then throw .invalid
    return Value.insert key (← value v) done) []

def entry (number : Nat) : Builder (Value × Value) := do
  match (← get).graph.node number with
  | .mapping _ [(k, v)] => do
    let key ← value k
    return (key, ← value v)
  | _ => throw .invalid

def collection (number : Nat) : Builder Collection := do
  match (← get).graph.node number with
  | .sequence .sequence elements => return .sequence (← elements.mapM value)
  | .sequence .pairs elements => return .pairs (← elements.mapM entry)
  | .mapping .mapping _ => return .mapping (← entries number)
  | .mapping .set _ => return .set (setOrder ((← entries number).map (·.1)))
  | _ => throw .invalid

def finish : Nat → Builder Unit
  | 0 => throw .invalid
  | fuel + 1 => do
    match (← get).waiting with
    | [] => return
    | number :: rest => do
      modify fun b => { b with waiting := rest }
      let c ← collection number
      modify fun b => { b with collections := b.collections.setIfInBounds number c }
      finish fuel

def document (number : Nat) : Builder Value := do
  let v ← value number
  finish ((← get).graph.size + 1)
  return v

end Builder

namespace Document

def ofGraph (g : Graph) (number : Nat) : Except Fault Document := do
  let (root, b) ← (Builder.document number).run
    ⟨g, Array.replicate g.size none, Array.replicate g.size (.sequence []), []⟩
  pure ⟨root, b.collections⟩

def collection? (d : Document) : Value → Option Collection
  | .collection number => d.collections[number]?
  | _ => none

def isTelling (d : Document) : Value → Bool
  | .null => false
  | .bool b => b
  | .int n => n != 0
  | .float x => x.code != 0
  | .string t => !t.isEmpty
  | .bytes bs => !bs.isEmpty
  | .notNumber _ | .moment _ => true
  | .collection number => ((d.collections[number]?).map fun c => !c.isEmpty).getD false

def loopText : Collection → String
  | .sequence _ | .pairs _ => "[...]"
  | .mapping _ => "\x7b...\x7d"
  | .set _ => "set(...)"

def listText (start : String) (parts : List Text) (stop : String) : Text :=
  start.toList ++ Json.join [',', ' '] parts ++ stop.toList

def integerText (n : Int) : Except ScalarFault Text :=
  if Number.isShort n then .ok (Number.intText n) else .error .tooLong

def quoted (d : Document) : Nat → List Nat → Value → Except ScalarFault Text
  | _, _, .null => .ok "None".toList
  | _, _, .bool b => .ok (if b then "True" else "False").toList
  | _, _, .int n => integerText n
  | _, _, .float x => .ok (Number.plain.text x)
  | _, _, .notNumber _ => .ok (Number.plain.text .nan)
  | _, _, .string t => .ok (Text.quoted t)
  | _, _, .bytes bs => .ok (Text.quotedBytes bs)
  | _, _, .moment m => .ok m.quoted.toList
  | 0, _, .collection _ => .ok []
  | fuel + 1, around, .collection number =>
    let c := (d.collections[number]?).getD (.sequence [])
    let part := quoted d fuel (number :: around)
    if around.contains number then .ok (loopText c).toList
    else match c with
    | .sequence elements => do pure (listText "[" (← elements.mapM part) "]")
    | .mapping entries => do
      let parts ← entries.mapM fun (k, v) => do pure ((← part k) ++ ':' :: ' ' :: (← part v))
      pure (listText "\x7b" parts "\x7d")
    | .pairs entries => do
      let parts ← entries.mapM fun (k, v) => do
        pure (listText "(" [← part k, ← part v] ")")
      pure (listText "[" parts "]")
    | .set [] => .ok "set()".toList
    | .set elements => do pure (listText "\x7b" (← elements.mapM part) "\x7d")

def text (d : Document) : Value → Except ScalarFault Text
  | .string t => .ok t
  | .moment m => .ok m.text.toList
  | v => d.quoted (d.collections.size + 1) [] v

end Document

def read (t : Text) : Except Fault Document := do
  match ← Graph.read t with
  | (some number, g) => Document.ofGraph g number
  | (none, _) => pure ⟨.null, #[]⟩

end Conditions.Yaml
