import Conditions.Yaml.Node

/-!
# Merging

A mapping may have others merged into it. What is merged comes first, so that what the mapping says
itself wins over it; of several mappings that are merged at once the first one wins. Merging changes
the graph: the entries of a mapping are the merged ones from then on.
-/

set_option autoImplicit false

namespace Conditions.Yaml

namespace Graph

def entries (g : Graph) (number : Nat) : List (Nat × Nat) :=
  match g.node number with
  | .mapping _ entries => entries
  | _ => []

def setEntries (g : Graph) (number : Nat) (entries : List (Nat × Nat)) : Graph :=
  g.setIfInBounds number (.mapping (g.node number).tag entries)

def tag (g : Graph) (number : Nat) : Tag := (g.node number).tag

def firstMerge? (g : Graph) :
    List (Nat × Nat) → Option (List (Nat × Nat) × Nat × List (Nat × Nat))
  | [] => none
  | (k, v) :: rest =>
    if g.tag k = .merge then some ([], v, rest)
    else (firstMerge? g rest).map fun (front, value, back) => ((k, v) :: front, value, back)

def nameDefaults (g : Graph) (entries : List (Nat × Nat)) : Graph :=
  entries.foldl (fun g e =>
    if g.tag e.1 = .value then g.setIfInBounds e.1 ((g.node e.1).withTag .string) else g) g

/-- Merges into mapping `number` what its entries say, besides the entries `merged`. A mapping that
is merged into itself gives what it has when the entry is looked at. Every step takes an entry away
that merges something. -/
def mergeFrom : Nat → Nat → List (Nat × Nat) → Graph → Except Fault Graph
  | 0, _, _, _ => .error .invalid
  | fuel + 1, number, merged, g =>
    let entries := g.entries number
    match g.firstMerge? entries with
    | none => .ok ((g.nameDefaults entries).setEntries number (merged ++ entries))
    | some (front, value, back) => do
      let g := g.setEntries number (front ++ back)
      match g.node value with
      | .mapping _ _ => do
        let g ← mergeFrom fuel value [] g
        mergeFrom fuel number (merged ++ g.entries value) g
      | .sequence _ elements => do
        let (g, found) ← elements.foldlM (fun (g, found) e =>
          match g.node e with
          | .mapping _ _ => do
            let g ← mergeFrom fuel e [] g
            pure (g, g.entries e ++ found)
          | _ => .error .invalid) (g, ([] : List (Nat × Nat)))
        mergeFrom fuel number (merged ++ found) g
      | .scalar _ _ => .error .invalid

def entryCount (g : Graph) : Nat :=
  g.foldl (fun n node =>
    match node with
    | .mapping _ entries => n + entries.length
    | _ => n) 0

def text (g : Graph) : Nat → Nat → Except Fault Text
  | 0, _ => .error (.scalar .endless)
  | fuel + 1, number =>
    match g.node number with
    | .scalar _ t => .ok t
    | .mapping _ entries =>
      match entries.find? fun e => g.tag e.1 == .value with
      | some e => g.text fuel e.2
      | none => .error .invalid
    | .sequence _ _ => .error .invalid

end Graph

end Conditions.Yaml
