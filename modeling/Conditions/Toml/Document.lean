import Conditions.Toml.Scalar

/-!
# TOML documents

A document is a sequence of lines: members `key = value`, headers of tables and of arrays of
tables, comments. A table may have one header only, a table made by dotted keys none, and what is
written as one value is closed: nothing is added to it later.
-/

set_option autoImplicit false

namespace Conditions.Toml

def skipSpace (t : Text) : Text := t.dropWhile isSpace

def skipComment : Text → Except Fault Text
  | '#' :: rest =>
    let comment := rest.takeWhile (· != '\n')
    if comment.all isInline then .ok (rest.dropWhile (· != '\n')) else invalid
  | t => .ok t

def skipFiller : Nat → Text → Except Fault Text
  | 0, t => .ok t
  | fuel + 1, t =>
    match t.dropWhile isSpaceOrNewline with
    | '#' :: rest => do skipFiller fuel (← skipComment ('#' :: rest))
    | rest => .ok rest

abbrev Key := List String

def isBare (c : Char) : Bool := c.isAlphanum || c == '-' || c == '_'

def keyPart : Reading String
  | '"' :: rest => (basicString rest).map fun (s, rest) => (String.ofList s, rest)
  | '\'' :: rest => (literalText false rest).map fun (s, rest) => (String.ofList s, rest)
  | t =>
    let part := t.takeWhile isBare
    if part.isEmpty then invalid else .ok (String.ofList part, t.dropWhile isBare)

def key : Nat → Reading Key
  | 0, _ => invalid
  | fuel + 1, t => do
    let (part, rest) ← keyPart t
    match skipSpace rest with
    | '.' :: rest =>
      let (more, rest) ← key fuel (skipSpace rest)
      pure (part :: more, rest)
    | rest => pure ([part], rest)

structure Inline where
  table : Table
  closed : List Key

def leadsFrom (keys : List Key) (key : Key) : Bool := keys.any (·.isPrefixOf key)

def Inline.add (i : Inline) (key : Key) (v : Value) : Except Fault Inline :=
  if leadsFrom i.closed key then invalid
  else match i.table.change? false (Table.add? (key.getLastD "") v) key.dropLast with
    | none => invalid
    | some table => .ok ⟨table, if v.isNested then key :: i.closed else i.closed⟩

mutual

def value : Nat → Reading Value
  | 0, _ => invalid
  | fuel + 1, t =>
    match t with
    | '[' :: rest => do
      match ← skipFiller (rest.length + 1) rest with
      | ']' :: rest => pure (.array [], rest)
      | rest =>
        let (elements, rest) ← elements fuel rest
        pure (.array elements, rest)
    | '\x7b' :: rest =>
      match skipSpace rest with
      | '\x7d' :: rest => .ok (.table [], rest)
      | rest => do
        let (i, rest) ← members fuel ⟨[], []⟩ rest
        pure (.table i.table, rest)
    | t => scalar t

def elements : Nat → Reading (List Value)
  | 0, _ => invalid
  | fuel + 1, t => do
    let (v, rest) ← value fuel t
    match ← skipFiller (rest.length + 1) rest with
    | ']' :: rest => pure ([v], rest)
    | ',' :: rest =>
      match ← skipFiller (rest.length + 1) rest with
      | ']' :: rest => pure ([v], rest)
      | rest =>
        let (more, rest) ← elements fuel rest
        pure (v :: more, rest)
    | _ => invalid

def members : Nat → Inline → Reading Inline
  | 0, _, _ => invalid
  | fuel + 1, i, t => do
    let (k, rest) ← key (t.length + 1) t
    match rest with
    | '=' :: rest =>
      let (v, rest) ← value fuel (skipSpace rest)
      let i ← i.add k v
      match skipSpace rest with
      | '\x7d' :: rest => pure (i, rest)
      | ',' :: rest => members fuel i (skipSpace rest)
      | _ => invalid
    | _ => invalid

end

structure Draft where
  table : Table
  header : Key
  explicit : List Key
  pending : List Key
  closed : List Key

namespace Draft

def empty : Draft := ⟨[], [], [], [], []⟩

def beginHeader (d : Draft) : Draft := { d with explicit := d.pending ++ d.explicit, pending := [] }

def declareTable (d : Draft) (key : Key) : Except Fault Draft :=
  if d.explicit.contains key || leadsFrom d.closed key then invalid
  else match d.table.change? true some key with
    | none => invalid
    | some table => .ok { d with table, header := key, explicit := key :: d.explicit }

def appendTable (d : Draft) (key : Key) : Except Fault Draft :=
  if leadsFrom d.closed key then invalid
  else match d.table.change? true (Table.append? (key.getLastD "")) key.dropLast with
    | none => invalid
    | some table =>
      let forget := fun keys : List Key => keys.filter fun k => !key.isPrefixOf k
      .ok { d with
        table
        header := key
        explicit := key :: forget d.explicit
        closed := forget d.closed }

def passed (header key : Key) : List Key :=
  ((List.range key.length).drop 1).map fun n => header ++ key.take n

def addMember (d : Draft) (key : Key) (v : Value) : Except Fault Draft :=
  let through := passed d.header key
  if through.any d.explicit.contains || leadsFrom d.closed (d.header ++ key.dropLast) then invalid
  else match d.table.change? true (Table.add? (key.getLastD "") v) (d.header ++ key.dropLast) with
    | none => invalid
    | some table =>
      .ok { d with
        table
        pending := through ++ d.pending
        closed := if v.isNested then (d.header ++ key) :: d.closed else d.closed }

def statement (d : Draft) (t : Text) : Except Fault (Draft × Text) :=
  match t with
  | '[' :: '[' :: rest => do
    let (k, rest) ← key (rest.length + 1) (skipSpace rest)
    let d ← d.beginHeader.appendTable k
    match rest with
    | ']' :: ']' :: rest => pure (d, rest)
    | _ => invalid
  | '[' :: rest => do
    let (k, rest) ← key (rest.length + 1) (skipSpace rest)
    let d ← d.beginHeader.declareTable k
    match rest with
    | ']' :: rest => pure (d, rest)
    | _ => invalid
  | t => do
    let (k, rest) ← key (t.length + 1) t
    match rest with
    | '=' :: rest =>
      let rest := skipSpace rest
      let (v, rest) ← value (rest.length + 1) rest
      pure (← d.addMember k v, rest)
    | _ => invalid

def lines : Nat → Draft → Text → Except Fault Draft
  | 0, _, _ => invalid
  | fuel + 1, d, t =>
    match skipSpace t with
    | [] => .ok d
    | '\n' :: rest => lines fuel d rest
    | rest => do
      let (d, rest) ← match rest with
        | '#' :: _ => pure (d, rest)
        | _ => d.statement rest
      match ← skipComment (skipSpace rest) with
      | [] => pure d
      | '\n' :: rest => lines fuel d rest
      | _ => invalid

end Draft

def joinNewlines : Text → Text
  | '\r' :: '\n' :: rest => '\n' :: joinNewlines rest
  | c :: rest => c :: joinNewlines rest
  | [] => []

def read (t : Text) : Except Fault Table :=
  let t := joinNewlines t
  (Draft.lines (t.length + 1) .empty t).map Draft.table

end Conditions.Toml
