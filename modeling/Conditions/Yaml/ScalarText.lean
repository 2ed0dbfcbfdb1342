import Conditions.Yaml.Scalar
import Conditions.Yaml.Spot

/-!
# Texts of scalars

A scalar is written in quotes, as a block of lines, or plain. Lines of it are folded: a single line
end becomes a space, and of several the first is dropped. Every reader gives the text and the spot
behind it; each of its steps takes a character, so a count of what is ahead is fuel enough.
-/

set_option autoImplicit false

namespace Conditions.Yaml

abbrev Taken := Except Fault (Text × Spot)

def fold (lineEnd : Char) (breaks : Text) : Text :=
  if lineEnd != '\n' then lineEnd :: breaks
  else if breaks.isEmpty then [' ']
  else breaks

def isHexText (t : Text) : Bool := t.all isHex

def quotedBreaks : Nat → Spot → Taken
  | 0, _ => .error .invalid
  | fuel + 1, s =>
    if s.atDocumentMark then .error .invalid
    else
      let s := s.skipWhile isGap
      match s.break? with
      | some (c, s) => do
        let (more, s) ← quotedBreaks fuel s
        pure (c :: more, s)
      | none => pure ([], s)

def escapes : List (Char × Char) :=
  [('0', '\x00'), ('a', '\x07'), ('b', '\x08'), ('t', '\t'), ('\t', '\t'), ('n', '\n'),
   ('v', '\x0b'), ('f', '\x0c'), ('r', '\r'), ('e', '\x1b'), (' ', ' '), ('"', '"'),
   ('\\', '\\'), ('/', '/'), ('N', '\x85'), ('_', '\xa0'), ('L', '\u2028'), ('P', '\u2029')]

def escapeWidths : List (Char × Nat) := [('x', 2), ('u', 4), ('U', 8)]

def escaped (s : Spot) : Taken :=
  match s.rest with
  | [] => .error .invalid
  | c :: rest =>
    match escapes.lookup c, escapeWidths.lookup c, s.break? with
    | some d, _, _ => .ok ([d], s.next)
    | none, some width, _ =>
      let digits := rest.take width
      if digits.length = width && isHexText digits then
        let code := Number.valueIn 16 digits
        if pow2 31 ≤ code then .error (.scalar .noCode)
        else if 0x110000 ≤ code then .error (.scalar .noCharacter)
        else if 0xd800 ≤ code && code < 0xe000 then .error (.scalar .halfCharacter)
        else .ok ([Char.ofNat code], s.skip (width + 1))
      else .error .invalid
    | none, none, some (_, s) => quotedBreaks (s.rest.length + 1) s
    | none, none, none => .error .invalid

def quotedWord (mark : Char) : Nat → Spot → Taken
  | 0, _ => .error .invalid
  | fuel + 1, s =>
    match s.rest with
    | [] => .ok ([], s)
    | c :: _ =>
      if isGap c || isBreak c then .ok ([], s)
      else if c = mark then
        if mark = '\'' && s.peekAt 1 == some '\'' then do
          let (more, s) ← quotedWord mark fuel (s.skip 2)
          pure ('\'' :: more, s)
        else .ok ([], s)
      else if c = '\\' && mark = '"' then do
        let (t, s) ← escaped s.next
        let (more, s) ← quotedWord mark fuel s
        pure (t ++ more, s)
      else do
        let (more, s) ← quotedWord mark fuel s.next
        pure (c :: more, s)

def quotedGap (s : Spot) : Taken :=
  let (gap, s) := s.span isGap
  if s.rest.isEmpty then .error .invalid
  else match s.break? with
    | some (c, s) => do
      let (breaks, s) ← quotedBreaks (s.rest.length + 1) s
      pure (fold c breaks, s)
    | none => .ok (gap, s)

def quotedParts (mark : Char) : Nat → Spot → Taken
  | 0, _ => .error .invalid
  | fuel + 1, s => do
    let (word, s) ← quotedWord mark (s.rest.length + 1) s
    if s.isAt mark then pure (word, s.next)
    else
      let (gap, s) ← quotedGap s
      let (more, s) ← quotedParts mark fuel s
      pure (word ++ gap ++ more, s)

def quotedScalar (mark : Char) (s : Spot) : Taken := quotedParts mark (s.rest.length + 1) s.next

inductive Chomp where
  | strip
  | clip
  | keep
  deriving DecidableEq, Repr

def chomp? : Option Char → Option Chomp
  | some '+' => some .keep
  | some '-' => some .strip
  | _ => none

def increment? (s : Spot) : Except Fault (Option Nat × Spot) :=
  match s.peek with
  | some c =>
    if c = '0' then .error .invalid
    else if c.isDigit then .ok (some (c.toNat - 48), s.next)
    else .ok (none, s)
  | none => .ok (none, s)

def blockHeader (s : Spot) : Except Fault (Chomp × Option Nat × Spot) := do
  let (chomp, increment, s) ← match chomp? s.peek with
    | some chomp => do
      let (increment, s) ← increment? s.next
      pure (chomp, increment, s)
    | none => do
      let (increment, s) ← increment? s
      match increment, chomp? s.peek with
      | some _, some chomp => pure (chomp, increment, s.next)
      | _, _ => pure (.clip, increment, s)
  if !Spot.endsPart s.peek then throw .invalid
  match s.finishLine? with
  | some s => pure (chomp, increment, s)
  | none => throw .invalid

def blockLead : Nat → Nat → Spot → Text × Nat × Spot
  | 0, most, s => ([], most, s)
  | fuel + 1, most, s =>
    if s.isAt ' ' then
      let s := s.next
      blockLead fuel (max most s.column) s
    else match s.break? with
      | some (c, s) =>
        let (breaks, most, s) := blockLead fuel most s
        (c :: breaks, most, s)
      | none => ([], most, s)

def skipTo (column : Nat) (s : Spot) : Spot :=
  let spaces := (s.rest.takeWhile (· == ' ')).length
  s.skip (min spaces (column - s.column))

def blockBreaks (column : Nat) : Nat → Spot → Text × Spot
  | 0, s => ([], s)
  | fuel + 1, s =>
    let s := skipTo column s
    match s.break? with
    | some (c, s) =>
      let (breaks, s) := blockBreaks column fuel s
      (c :: breaks, s)
    | none => ([], s)

structure BlockEnd where
  lineEnd : Text
  breaks : Text

def blockGap (folded : Bool) (leading : Option Char) (lineEnd : Text) (s : Spot) (breaks : Text) :
    Text :=
  let isText := fun (c : Option Char) => (c.map fun c => !isGap c).getD true
  if folded && lineEnd = ['\n'] && isText leading && isText s.peek then
    (if breaks.isEmpty then [' '] else []) ++ breaks
  else lineEnd ++ breaks

def blockLines (folded : Bool) (column : Nat) : Nat → Spot → Text × BlockEnd × Spot
  | 0, s => ([], ⟨[], []⟩, s)
  | fuel + 1, s =>
    let leading := s.peek
    let (line, s) := s.span fun c => !isBreak c
    let (lineEnd, s) := match s.break? with
      | some (c, s) => ([c], s)
      | none => ([], s)
    let (breaks, s) := blockBreaks column (s.rest.length + 1) s
    if s.column = column && !s.rest.isEmpty then
      let (more, last, t) := blockLines folded column fuel s
      (line ++ blockGap folded leading lineEnd s breaks ++ more, last, t)
    else (line, ⟨lineEnd, breaks⟩, s)

def BlockEnd.text (e : BlockEnd) : Chomp → Text
  | .strip => []
  | .clip => e.lineEnd
  | .keep => e.lineEnd ++ e.breaks

def blockScalar (folded : Bool) (indent : Int) (s : Spot) : Taken := do
  let (chomp, increment, s) ← blockHeader s.next
  let least := max 1 (indent + 1).toNat
  let (breaks, column, s) := match increment with
    | none =>
      let (breaks, most, s) := blockLead (s.rest.length + 1) 0 s
      (breaks, max least most, s)
    | some n =>
      let column := least + n - 1
      let (breaks, s) := blockBreaks column (s.rest.length + 1) s
      (breaks, column, s)
  if s.column = column && !s.rest.isEmpty then
    let (lines, last, s) := blockLines folded column (s.rest.length + 1) s
    pure (breaks ++ lines ++ last.text chomp, s)
  else pure (BlockEnd.text ⟨[], breaks⟩ chomp, s)

def isFlowMark (c : Char) : Bool := [',', '[', ']', '\x7b', '\x7d'].contains c

def stopsPlain (inFlow : Bool) (c : Char) (after : Option Char) : Bool :=
  isGap c || isBreak c ||
    (c == ':' && (Spot.endsWord after || (inFlow && (after.map isFlowMark).getD false))) ||
    (inFlow && (isFlowMark c || c == '?'))

def plainWord (inFlow : Bool) : Text → Text
  | [] => []
  | c :: rest => if stopsPlain inFlow c rest.head? then [] else c :: plainWord inFlow rest

def plainBreaks? : Nat → Spot → Option Text × Spot
  | 0, s => (none, s)
  | fuel + 1, s =>
    let s := s.skipSpaces
    match s.break? with
    | some (c, s) =>
      if s.atDocumentMark then (none, s)
      else
        let (more, s) := plainBreaks? fuel s
        (more.map (c :: ·), s)
    | none => (some [], s)

structure PlainGap where
  text : Option Text
  broken : Bool
  spot : Spot

def plainGap (s : Spot) : PlainGap :=
  let (gap, s) := s.span (· == ' ')
  match s.break? with
  | some (c, s) =>
    if s.atDocumentMark then ⟨none, true, s⟩
    else
      let (breaks, s) := plainBreaks? (s.rest.length + 1) s
      ⟨breaks.map (fold c), true, s⟩
  | none => ⟨if gap.isEmpty then none else some gap, false, s⟩

def plainParts (inFlow : Bool) (column : Int) : Nat → Text → Bool → Spot → Text × Bool × Spot
  | 0, _, broken, s => ([], broken, s)
  | fuel + 1, gap, broken, s =>
    if s.isAt '#' then ([], broken, s)
    else
      let word := plainWord inFlow s.rest
      if word.isEmpty then ([], broken, s)
      else
        let after := plainGap (s.skip word.length)
        let s := after.spot
        match after.text with
        | some next =>
          if s.isAt '#' || (!inFlow && s.column < column) then (gap ++ word, after.broken, s)
          else
            let (more, broken, s) := plainParts inFlow column fuel next after.broken s
            (gap ++ word ++ more, broken, s)
        | none => (gap ++ word, after.broken, s)

def plainScalar (inFlow : Bool) (indent : Int) (s : Spot) : Text × Bool × Spot :=
  plainParts inFlow (indent + 1) (s.rest.length + 1) [] false s

end Conditions.Yaml
