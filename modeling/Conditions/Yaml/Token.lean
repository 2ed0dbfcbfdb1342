import Conditions.Dictionary
import Conditions.Text.Utf8
import Conditions.Yaml.ScalarText

/-!
# Tokens

The marks, names and scalars of a document. Columns of lines become tokens too: a column further in
than all before opens a block collection, and a column further out closes those that lie between.
Whether something is a key is seen only at the colon behind it. Until then it is remembered as a
candidate, one for each depth of flow collections, and the tokens of the key are put in front of it
later. A text is read no further than it takes to know the next token.
-/

set_option autoImplicit false

namespace Conditions.Yaml

inductive Directive where
  | version (major : Nat)
  | tag (handle name : Text)
  | other
  deriving DecidableEq, Repr

inductive Token where
  | directive (d : Directive)
  | documentStart
  | documentEnd
  | blockSequence
  | blockMapping
  | blockEnd
  | openSequence
  | closeSequence
  | openMapping
  | closeMapping
  | entry
  | comma
  | key
  | value
  | alias (name : Text)
  | anchor (name : Text)
  | tag (handle : Option Text) (name : Text)
  | scalar (t : Text) (isPlain : Bool)
  deriving DecidableEq, Repr, Inhabited

def isNameChar (c : Char) : Bool := c.isAlphanum || c == '-' || c == '_'

def anchorName (s : Spot) : Taken :=
  let (name, s) := s.next.span isNameChar
  let ends := match s.peek with
    | none => true
    | some c => Spot.endsWord (some c) || ['?', ':', ',', ']', '\x7d', '%', '@', '`'].contains c
  if name.isEmpty || !ends then .error .invalid else .ok (name, s)

def uriBytes : Nat → Spot → Except Fault (List Nat × Spot)
  | 0, _ => .error .invalid
  | fuel + 1, s =>
    match s.rest with
    | '%' :: rest =>
      let digits := rest.take 2
      if digits.length = 2 && isHexText digits then do
        let (more, s) ← uriBytes fuel (s.skip 3)
        pure (Number.valueIn 16 digits :: more, s)
      else .error .invalid
    | _ => .ok ([], s)

def uriMarks : Text := "-;/?:@&=+$,_.!~*'()[]".toList

def isUriChar (c : Char) : Bool := c.isAlphanum || uriMarks.contains c

def uriParts : Nat → Spot → Taken
  | 0, _ => .error .invalid
  | fuel + 1, s => do
    let (plain, s) := s.span isUriChar
    if s.isAt '%' then
      let (bytes, s) ← uriBytes (s.rest.length + 1) s
      let decoded ← (Text.decodeUtf8 bytes).mapError fun _ => Fault.invalid
      let (more, s) ← uriParts fuel s
      pure (plain ++ decoded ++ more, s)
    else pure (plain, s)

def uri (s : Spot) : Taken := do
  if !s.isAt '%' && (s.span isUriChar).1.isEmpty then throw .invalid
  uriParts (s.rest.length + 1) s

def tagHandle (s : Spot) : Taken :=
  if !s.isAt '!' then .error .invalid
  else if s.peekAt 1 == some ' ' then .ok (['!'], s.next)
  else
    let (name, t) := s.next.span isNameChar
    if t.isAt '!' then .ok ('!' :: name ++ ['!'], t.next) else .error .invalid

def tagToken (s : Spot) : Except Fault (Token × Spot) := do
  let (token, s) ←
    if s.peekAt 1 == some '<' then do
      let (name, s) ← uri (s.skip 2)
      if !s.isAt '>' then throw .invalid
      pure (Token.tag none name, s.next)
    else if Spot.endsWord (s.peekAt 1) then pure (Token.tag none ['!'], s.next)
    else do
      let ahead := (s.next.rest.takeWhile fun c => !Spot.endsPart (some c))
      let (handle, s) ← if ahead.contains '!' then tagHandle s else pure (['!'], s.next)
      let (name, s) ← uri s
      pure (Token.tag (some handle) name, s)
  if Spot.endsPart s.peek then pure (token, s) else throw .invalid

def directiveNumber (s : Spot) : Except Fault (Nat × Spot) :=
  let (digits, s) := s.span Char.isDigit
  if digits.isEmpty then .error .invalid
  else if Number.maxDigits < digits.length then .error (.scalar (.tooManyDigits digits.length))
  else .ok (Decimal.ofDigits digits, s)

def directiveValue (name : Text) (s : Spot) : Except Fault (Directive × Spot) := do
  if name = ['Y', 'A', 'M', 'L'] then
    let (major, s) ← directiveNumber s.skipSpaces
    if !s.isAt '.' then throw .invalid
    let (_, s) ← directiveNumber s.next
    if !Spot.endsPart s.peek then throw .invalid
    pure (.version major, s)
  else if name = ['T', 'A', 'G'] then
    let (handle, s) ← tagHandle s.skipSpaces
    if !s.isAt ' ' then throw .invalid
    let (start, s) ← uri s.skipSpaces
    if !Spot.endsPart s.peek then throw .invalid
    pure (.tag handle start, s)
  else pure (.other, s.skipLine)

def directive (s : Spot) : Except Fault (Token × Spot) := do
  let (name, s) := s.next.span isNameChar
  if name.isEmpty || !Spot.endsPart s.peek then throw .invalid
  let (d, s) ← directiveValue name s
  match s.finishLine? with
  | some s => pure (.directive d, s)
  | none => throw .invalid

structure Candidate where
  number : Nat
  required : Bool
  index : Nat
  line : Nat
  column : Nat
  deriving Repr

structure Scan where
  spot : Spot
  depth : Nat
  indent : Int
  outer : List Int
  keyAllowed : Bool
  candidates : Dictionary Nat Candidate
  taken : Nat
  tokens : List Token
  ended : Bool

namespace Scan

def start (t : Text) : Scan :=
  let spot := Spot.start t
  ⟨if spot.isAt '\ufeff' then spot.next else spot, 0, -1, [], true, [], 0, [], false⟩

def push (s : Scan) (t : Token) : Scan := { s with tokens := s.tokens ++ [t] }

def count (s : Scan) : Nat := s.taken + s.tokens.length

def putAt (s : Scan) (number : Nat) (t : Token) : Scan :=
  { s with tokens := s.tokens.insertIdx (number - s.taken) t }

def isStale (s : Scan) (c : Candidate) : Bool :=
  c.line != s.spot.line || c.index + 1024 < s.spot.index

def dropStale (s : Scan) : Except Fault Scan :=
  if s.candidates.any fun e => s.isStale e.2 && e.2.required then .error .invalid
  else .ok { s with candidates := s.candidates.filter fun e => !s.isStale e.2 }

def dropCandidate (s : Scan) : Except Fault Scan :=
  match s.candidates.find? s.depth with
  | some c => if c.required then .error .invalid
    else .ok { s with candidates := s.candidates.erase s.depth }
  | none => .ok s

def saveCandidate (s : Scan) : Except Fault Scan :=
  if s.keyAllowed then do
    let required := s.depth == 0 && s.indent == (s.spot.column : Int)
    let s ← s.dropCandidate
    let c : Candidate := ⟨s.count, required, s.spot.index, s.spot.line, s.spot.column⟩
    pure { s with candidates := s.candidates.insert s.depth c }
  else .ok s

def closeBlocks (column : Int) : List Int → Scan → Scan
  | [], s => s
  | indent :: outer, s =>
    if column < s.indent then
      closeBlocks column outer { s.push .blockEnd with indent, outer }
    else s

def unwind (s : Scan) (column : Int) : Scan :=
  if s.depth = 0 then closeBlocks column s.outer s else s

def openBlock (s : Scan) (column number : Nat) (t : Token) : Scan :=
  if s.indent < column then
    { s.putAt number t with indent := column, outer := s.indent :: s.outer }
  else s

def skipGaps : Nat → Scan → Scan
  | 0, s => s
  | fuel + 1, s =>
    let spot := s.spot.skipSpaces
    let spot := if spot.isAt '#' then spot.skipLine else spot
    match spot.break? with
    | some (_, spot) =>
      skipGaps fuel { s with spot, keyAllowed := s.keyAllowed || s.depth == 0 }
    | none => { s with spot }

def skip (s : Scan) (n : Nat) : Scan := { s with spot := s.spot.skip n }

def take (s : Scan) (t : Token) : Scan := (s.skip 1).push t

def outside (s : Scan) (read : Spot → Except Fault (Token × Spot)) : Except Fault Scan := do
  let s ← (s.unwind (-1)).dropCandidate
  let (t, spot) ← read s.spot
  pure ({ s with keyAllowed := false, spot }.push t)

def openFlow (s : Scan) (t : Token) : Except Fault Scan := do
  let s ← s.saveCandidate
  pure ({ s with depth := s.depth + 1, keyAllowed := true }.take t)

def closeFlow (s : Scan) (t : Token) : Except Fault Scan := do
  let s ← s.dropCandidate
  if s.depth = 0 then throw .invalid
  pure ({ s with depth := s.depth - 1, keyAllowed := false }.take t)

def comma (s : Scan) : Except Fault Scan := do
  let s ← { s with keyAllowed := true }.dropCandidate
  pure (s.take .comma)

def entry (s : Scan) : Except Fault Scan := do
  if s.depth = 0 && !s.keyAllowed then throw .invalid
  let s := if s.depth = 0 then s.openBlock s.spot.column s.count .blockSequence else s
  let s ← { s with keyAllowed := true }.dropCandidate
  pure (s.take .entry)

def key (s : Scan) : Except Fault Scan := do
  if s.depth = 0 && !s.keyAllowed then throw .invalid
  let s := if s.depth = 0 then s.openBlock s.spot.column s.count .blockMapping else s
  let s ← { s with keyAllowed := s.depth == 0 }.dropCandidate
  pure (s.take .key)

def value (s : Scan) : Except Fault Scan :=
  match s.candidates.find? s.depth with
  | some c =>
    let s := { s.putAt c.number .key with candidates := s.candidates.erase s.depth }
    let s := if s.depth = 0 then s.openBlock c.column c.number .blockMapping else s
    .ok ({ s with keyAllowed := false }.take .value)
  | none => do
    if s.depth = 0 && !s.keyAllowed then throw .invalid
    let s := if s.depth = 0 then s.openBlock s.spot.column s.count .blockMapping else s
    let s ← { s with keyAllowed := s.depth == 0 }.dropCandidate
    pure (s.take .value)

def word (s : Scan) (read : Spot → Except Fault (Token × Spot)) : Except Fault Scan := do
  let s ← s.saveCandidate
  let (t, spot) ← read s.spot
  pure ({ s with keyAllowed := false, spot }.push t)

def block (s : Scan) (folded : Bool) : Except Fault Scan := do
  let s ← { s with keyAllowed := true }.dropCandidate
  let (t, spot) ← blockScalar folded s.indent s.spot
  pure ({ s with spot }.push (.scalar t false))

def plain (s : Scan) : Except Fault Scan := do
  let s ← s.saveCandidate
  let (t, broken, spot) := plainScalar (s.depth != 0) s.indent s.spot
  pure ({ s with keyAllowed := broken, spot }.push (.scalar t true))

def indicators : Text := "-?:,[]\x7b\x7d#&*!|>'\"%@`".toList

def startsPlain (s : Scan) (c : Char) : Bool :=
  (!Spot.endsWord (some c) && !indicators.contains c) ||
    (!Spot.endsWord (s.spot.peekAt 1) && (c == '-' || (s.depth == 0 && (c == '?' || c == ':'))))

def token (s : Scan) (c : Char) : Except Fault Scan :=
  let isWord := Spot.endsWord (s.spot.peekAt 1)
  let atMargin := s.spot.column == 0
  let named := fun (make : Text → Token) (read : Spot → Taken) (spot : Spot) => do
    let (t, spot) ← read spot
    pure (make t, spot)
  let mark := fun (t : Token) (spot : Spot) => pure (t, spot.skip 3)
  if c = '%' && atMargin then s.outside directive
  else if atMargin && s.spot.atMark '-' then s.outside (mark .documentStart)
  else if atMargin && s.spot.atMark '.' then s.outside (mark .documentEnd)
  else if c = '[' then s.openFlow .openSequence
  else if c = '\x7b' then s.openFlow .openMapping
  else if c = ']' then s.closeFlow .closeSequence
  else if c = '\x7d' then s.closeFlow .closeMapping
  else if c = ',' then s.comma
  else if c = '-' && isWord then s.entry
  else if c = '?' && (isWord || s.depth != 0) then s.key
  else if c = ':' && (isWord || s.depth != 0) then s.value
  else if c = '*' then s.word (named .alias anchorName)
  else if c = '&' then s.word (named .anchor anchorName)
  else if c = '!' then s.word tagToken
  else if c = '|' && s.depth == 0 then s.block false
  else if c = '>' && s.depth == 0 then s.block true
  else if c = '\'' || c = '"' then s.word (named (.scalar · false) (quotedScalar c))
  else if s.startsPlain c then s.plain
  else .error .invalid

def fetch (s : Scan) : Except Fault Scan := do
  let s ← (skipGaps (s.spot.rest.length + 1) s).dropStale
  let s := s.unwind s.spot.column
  match s.spot.peek with
  | none => do
    let s ← (s.unwind (-1)).dropCandidate
    pure { s with keyAllowed := false, candidates := [], ended := true }
  | some c => s.token c

/-- Reads on until the next token is known: as long as it is a candidate, something may have to be
put in front of it. -/
def settle : Nat → Scan → Except Fault Scan
  | 0, _ => .error .invalid
  | fuel + 1, s =>
    if s.ended then .ok s
    else if s.tokens.isEmpty then do (← s.fetch).settle fuel
    else do
      let s ← s.dropStale
      if s.candidates.any fun e => e.2.number == s.taken then (← s.fetch).settle fuel else pure s

def ready (s : Scan) : Except Fault Scan := s.settle (s.spot.rest.length + 2)

def advance (s : Scan) : Scan := { s with tokens := s.tokens.tail, taken := s.taken + 1 }

end Scan

def isAllowed (c : Char) : Bool :=
  let n := c.toNat
  n == 0x09 || n == 0x0a || n == 0x0d || (0x20 ≤ n && n ≤ 0x7e) || n == 0x85 ||
    (0xa0 ≤ n && n ≤ 0xd7ff) || (0xe000 ≤ n && n ≤ 0xfffd) || 0x10000 ≤ n

def scan (t : Text) : Except Fault Scan :=
  if t.all isAllowed then .ok (.start t) else .error .invalid

end Conditions.Yaml
