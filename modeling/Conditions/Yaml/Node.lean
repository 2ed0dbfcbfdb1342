import Conditions.Yaml.Token

/-!
# Nodes

A document is a graph of nodes: scalars, sequences and mappings with their tags. Nodes are known by
their numbers. A node with an anchor may be a part of several others, and of itself.
-/

set_option autoImplicit false

namespace Conditions.Yaml

inductive Node where
  | scalar (tag : Tag) (t : Text)
  | sequence (tag : Tag) (elements : List Nat)
  | mapping (tag : Tag) (entries : List (Nat × Nat))
  deriving Repr, Inhabited

namespace Node

def empty : Node := .scalar .null []

def tag : Node → Tag
  | .scalar tag _ | .sequence tag _ | .mapping tag _ => tag

def withTag (tag : Tag) : Node → Node
  | .scalar _ t => .scalar tag t
  | .sequence _ elements => .sequence tag elements
  | .mapping _ entries => .mapping tag entries

def isOpen (tag : Option Text) : Bool := tag.isNone || tag == some ['!']

def tagOf (tag : Option Text) (own : Tag) : Tag :=
  if isOpen tag then own else Tag.ofName (tag.getD [])

def scalarTag (tag : Option Text) (isPlain : Bool) (t : Text) : Tag :=
  match tag with
  | none => if isPlain then Tag.ofLook t else .string
  | some ['!'] => Tag.ofLook t
  | some name => Tag.ofName name

end Node

abbrev Graph := Array Node

def Graph.node (g : Graph) (number : Nat) : Node := g[number]?.getD .empty

structure Reading where
  scan : Scan
  handles : Dictionary Text Text
  anchors : Dictionary Text Nat
  graph : Graph

abbrev Reader := StateT Reading (Except Fault)

structure Properties where
  anchor : Option Text
  tag : Option Text

namespace Reader

def peek : Reader (Option Token) := do
  let r ← get
  let scan ← r.scan.ready
  set { r with scan }
  return scan.tokens.head?

def skip : Reader Unit := modify fun r => { r with scan := r.scan.advance }

def isAt (ts : List Token) : Reader Bool := do
  match ← peek with
  | some t => return ts.contains t
  | none => return false

def expect (t : Token) : Reader Unit := do
  if ← isAt [t] then skip else throw .invalid

def aliased (name : Text) : Reader Nat := do
  match (← get).anchors.find? name with
  | some number => return number
  | none => throw .invalid

def add (anchor : Option Text) (n : Node) : Reader Nat := do
  let r ← get
  let number := r.graph.size
  let anchors ← match anchor with
    | some name => if r.anchors.has name then throw .invalid else pure (r.anchors.insert name number)
    | none => pure r.anchors
  set { r with graph := r.graph.push n, anchors }
  return number

def empty : Reader Nat := add none .empty

def collect {α : Type} (p : Properties) (start : Node) (read : Reader α) (make : α → Node) :
    Reader Nat := do
  let number ← add p.anchor start
  let parts ← read
  modify fun r => { r with graph := r.graph.setIfInBounds number (make parts) }
  return number

def anchor? : Reader (Option Text) := do
  match ← peek with
  | some (.anchor name) => do skip; return some name
  | _ => return none

def tag? : Reader (Option (Option Text × Text)) := do
  match ← peek with
  | some (.tag handle name) => do skip; return some (handle, name)
  | _ => return none

def tagName : Option Text × Text → Reader Text
  | (none, name) => return name
  | (some handle, name) => do
    match (← get).handles.find? handle with
    | some start => return start ++ name
    | none => throw .invalid

def properties : Reader Properties := do
  let first ← anchor?
  let tag ← tag?
  let anchor ← if first.isNone && tag.isSome then anchor? else pure first
  return ⟨anchor, ← tag.mapM tagName⟩

def unlessAt (ts : List Token) (read : Reader Nat) : Reader Nat := do
  if ← isAt ts then empty else read

def valueUnlessAt (ts : List Token) (read : Reader Nat) : Reader Nat := do
  if ← isAt [.value] then do
    skip
    unlessAt ts read
  else empty

mutual

/-- A node. Block collections are nodes only where `inBlock` is set, and entries that are no
further in than the mapping around them only where `flat` is. -/
def node (inBlock flat : Bool) : Nat → Reader Nat
  | 0 => throw .invalid
  | fuel + 1 => do
    match ← peek with
    | some (.alias name) => do
      skip
      aliased name
    | _ => do
      let p ← properties
      let sequence := fun (read : Reader (List Nat)) =>
        let tag := Node.tagOf p.tag .sequence
        collect p (.sequence tag []) read (.sequence tag)
      let mapping := fun (read : Reader (List (Nat × Nat))) =>
        let tag := Node.tagOf p.tag .mapping
        collect p (.mapping tag []) read (.mapping tag)
      match ← peek, inBlock, flat with
      | some .entry, _, true => sequence (flatEntries fuel)
      | some (.scalar t isPlain), _, _ => do
        skip
        add p.anchor (.scalar (Node.scalarTag p.tag isPlain t) t)
      | some .openSequence, _, _ => sequence do skip; flowElements true fuel
      | some .openMapping, _, _ => mapping do skip; flowEntries true fuel
      | some .blockSequence, true, _ => sequence do skip; blockElements fuel
      | some .blockMapping, true, _ => mapping do skip; blockEntries fuel
      | _, _, _ =>
        if p.anchor.isSome || p.tag.isSome then
          add p.anchor (.scalar (Node.scalarTag p.tag true []) [])
        else throw .invalid

def blockElements : Nat → Reader (List Nat)
  | 0 => throw .invalid
  | fuel + 1 => do
    if ← isAt [.entry] then do
      skip
      let n ← unlessAt [.entry, .blockEnd] (node true false fuel)
      return n :: (← blockElements fuel)
    else do
      expect .blockEnd
      return []

def flatEntries : Nat → Reader (List Nat)
  | 0 => throw .invalid
  | fuel + 1 => do
    if ← isAt [.entry] then do
      skip
      let n ← unlessAt [.entry, .key, .value, .blockEnd] (node true false fuel)
      return n :: (← flatEntries fuel)
    else return []

def blockEntries : Nat → Reader (List (Nat × Nat))
  | 0 => throw .invalid
  | fuel + 1 => do
    if ← isAt [.key] then do
      skip
      let ends := [Token.key, .value, .blockEnd]
      let k ← unlessAt ends (node true true fuel)
      let v ← valueUnlessAt ends (node true true fuel)
      return (k, v) :: (← blockEntries fuel)
    else do
      expect .blockEnd
      return []

def flowElements (isFirst : Bool) : Nat → Reader (List Nat)
  | 0 => throw .invalid
  | fuel + 1 => do
    if ← isAt [.closeSequence] then do
      skip
      return []
    else do
      if !isFirst then expect .comma
      if ← isAt [.key] then do
        let read := do
          skip
          let k ← unlessAt [.value, .comma, .closeSequence] (node false false fuel)
          let v ← valueUnlessAt [.comma, .closeSequence] (node false false fuel)
          return [(k, v)]
        let n ← collect ⟨none, none⟩ (.mapping .mapping []) read (.mapping .mapping)
        return n :: (← flowElements false fuel)
      else if ← isAt [.closeSequence] then do
        skip
        return []
      else do
        let n ← node false false fuel
        return n :: (← flowElements false fuel)

def flowEntries (isFirst : Bool) : Nat → Reader (List (Nat × Nat))
  | 0 => throw .invalid
  | fuel + 1 => do
    if ← isAt [.closeMapping] then do
      skip
      return []
    else do
      if !isFirst then expect .comma
      if ← isAt [.key] then do
        skip
        let k ← unlessAt [.value, .comma, .closeMapping] (node false false fuel)
        let v ← valueUnlessAt [.comma, .closeMapping] (node false false fuel)
        return (k, v) :: (← flowEntries false fuel)
      else if ← isAt [.closeMapping] then do
        skip
        return []
      else do
        let k ← node false false fuel
        let v ← empty
        return (k, v) :: (← flowEntries false fuel)

end

def defaultHandles : Dictionary Text Text :=
  [(['!'], ['!']), (['!', '!'], Tag.common.toList)]

def directives : Nat → Bool → Dictionary Text Text → Reader (Dictionary Text Text)
  | 0, _, _ => throw .invalid
  | fuel + 1, versioned, handles => do
    match ← peek with
    | some (.directive (.version major)) => do
      skip
      if versioned || major != 1 then throw .invalid
      directives fuel true handles
    | some (.directive (.tag handle start)) => do
      skip
      if handles.has handle then throw .invalid
      directives fuel versioned (handles.insert handle start)
    | some (.directive .other) => do
      skip
      directives fuel versioned handles
    | _ => return handles

def skipEnds : Nat → Reader Unit
  | 0 => throw .invalid
  | fuel + 1 => do
    if ← isAt [.documentEnd] then do
      skip
      skipEnds fuel

def content (fuel : Nat) : Reader Nat := do
  match ← peek with
  | none | some .documentStart | some .documentEnd | some (.directive _) => empty
  | _ => node true false fuel

def opening (fuel : Nat) : Reader Unit := do
  let named ← directives fuel false []
  modify fun r => { r with handles := named ++ defaultHandles }
  expect .documentStart

def finish (fuel : Nat) : Reader Unit := do
  skipEnds fuel
  if (← peek).isSome then do
    opening fuel
    throw .invalid

def document (fuel : Nat) : Reader (Option Nat) := do
  match ← peek with
  | none => return none
  | some .documentStart | some (.directive _) => do
    opening fuel
    let n ← content fuel
    finish fuel
    return some n
  | _ => do
    let n ← node true false fuel
    finish fuel
    return some n

end Reader

/-- The graph of a document with the number of its first node. Every step of the readers takes a
token or ends, and a character makes four tokens at most. -/
def Graph.read (t : Text) : Except Fault (Option Nat × Graph) := do
  let (number, r) ← (Reader.document (8 * t.length + 16)).run ⟨← scan t, Reader.defaultHandles, [], #[]⟩
  pure (number, r.graph)

end Conditions.Yaml
