import Conditions.Json.Shown
import Conditions.Number.Rounded

/-!
# Message templates

A message may have places for arguments. A place is a percent sign and a letter that says how its
argument is shown: `%s` takes any argument and shows its text, `%d` takes a number and shows it
without its fraction, and `%%` stands for a percent sign. Between the sign and the letter there may
be a name, flags, a width and a precision.

Arguments are taken in order, and every one has to have a place. A mapping that is the only argument
is asked by the names of places instead.
-/

set_option autoImplicit false

namespace Conditions.Journal

inductive TemplateFault where
  | tooFew
  | tooMany
  | notNumber (letter : Char) (kind : String)
  | notWhole (letter : Char) (kind : String)
  | notReal (kind : String)
  | notCharacter
  | noCharacter
  | infinite
  | notANumber
  | tooLarge
  | written (fault : Json.WriteFault)
  | notSize
  | tooWide
  | tooPrecise
  | largeSize (type : String)
  | noMapping
  | notMapping
  | missing (name : Text)
  | openName
  | unknownPlace (letter : Char) (index : Nat)
  | cutShort
  deriving DecidableEq, Repr

def shownLetter (c : Char) : Char := if 31 ≤ c.toNat && c.toNat ≤ 126 then c else '?'

def TemplateFault.message : TemplateFault → String
  | .tooFew => "not enough arguments for format string"
  | .tooMany => "not all arguments converted during string formatting"
  | .notNumber letter kind => s!"%{letter} format: a real number is required, not {kind}"
  | .notWhole letter kind => s!"%{letter} format: an integer is required, not {kind}"
  | .notReal kind => s!"must be real number, not {kind}"
  | .notCharacter => "%c requires int or char"
  | .noCharacter => "%c arg not in range(0x110000)"
  | .infinite => "cannot convert float infinity to integer"
  | .notANumber => "cannot convert float NaN to integer"
  | .tooLarge => "int too large to convert to float"
  | .written fault => fault.message
  | .notSize => "* wants int"
  | .tooWide => "width too big"
  | .tooPrecise => "precision too big"
  | .largeSize type => s!"Python int too large to convert to C {type}"
  | .noMapping => "format requires a mapping"
  | .notMapping => "list indices must be integers or slices, not str"
  | .missing name => String.ofList (Text.quoted name)
  | .openName => "incomplete format key"
  | .unknownPlace letter index =>
    let code := String.ofList (Nat.toDigits 16 letter.toNat)
    let shown := shownLetter letter
    s!"unsupported format character '{shown}' (0x{code}) at index {index}"
  | .cutShort => "incomplete format"

structure Arguments where
  waiting : List Json
  mapping : Option Json

namespace Arguments

def ofList : List Json → Arguments
  | [.object (m :: members)] => ⟨[.object (m :: members)], some (.object (m :: members))⟩
  | js => ⟨js, none⟩

def ofValue (j : Json) : Arguments :=
  match j with
  | .array _ | .object _ => ⟨[j], some j⟩
  | _ => ⟨[j], none⟩

def next : Arguments → Except TemplateFault (Json × Arguments)
  | ⟨[], _⟩ => .error .tooFew
  | ⟨j :: rest, mapping⟩ => .ok (j, ⟨rest, mapping⟩)

def named (a : Arguments) (name : Text) : Except TemplateFault Arguments :=
  match a.mapping with
  | some (.object members) =>
    match members.lookup (String.ofList name) with
    | some j => .ok ⟨[j], a.mapping⟩
    | none => .error (.missing name)
  | some _ => .error .notMapping
  | none => .error .noMapping

def finish (a : Arguments) : Except TemplateFault Unit :=
  if a.waiting.isEmpty || a.mapping.isSome then .ok () else .error .tooMany

end Arguments

structure Place where
  leftward : Bool
  signed : Bool
  spaced : Bool
  marked : Bool
  zeros : Bool
  width : Nat
  precision : Option Nat

abbrev PlaceReader := StateT (Text × Arguments) (Except TemplateFault)

namespace PlaceReader

def peek : PlaceReader Char := do
  match (← get).1 with
  | c :: _ => pure c
  | [] => throw .cutShort

def take? (accepts : Char → Bool) : PlaceReader Bool := do
  match ← get with
  | (c :: rest, a) => if accepts c then do set (rest, a); pure true else pure false
  | ([], _) => pure false

def takeAll (accepts : Char → Bool) : PlaceReader Text := do
  let (t, a) ← get
  set (t.dropWhile accepts, a)
  pure (t.takeWhile accepts)

def argument : PlaceReader Json := do
  let (t, a) ← get
  let (j, a) ← a.next
  set (t, a)
  pure j

def splitName (depth : Nat) : Text → Option (Text × Text)
  | [] => none
  | ')' :: rest =>
    match depth with
    | 0 => some ([], rest)
    | depth + 1 => (splitName depth rest).map fun (name, rest) => (')' :: name, rest)
  | c :: rest =>
    (splitName (if c = '(' then depth + 1 else depth) rest).map fun (name, rest) =>
      (c :: name, rest)

def name : PlaceReader Unit := do
  match ← get with
  | ('(' :: rest, a) =>
    if a.mapping.isNone then throw .noMapping
    match splitName 0 rest with
    | none => throw .openName
    | some (name, rest) => set (rest, ← a.named name)
  | _ => pure ()

def size : Json → Except TemplateFault Int
  | .int n => .ok n
  | .bool b => .ok (if b then 1 else 0)
  | _ => .error .notSize

def number (limit : Nat) (fault : TemplateFault) (type : String) : PlaceReader Int := do
  if ← take? (· == '*') then
    let n ← size (← argument)
    if limit < n.natAbs then throw (.largeSize type) else pure n
  else
    let n := Decimal.ofDigits (← takeAll Char.isDigit)
    if limit < n then throw fault else pure n

def place : PlaceReader Place := do
  name
  let flags ← takeAll "-+ #0".toList.contains
  let width ← number (pow2 63 - 1) .tooWide "ssize_t"
  let precision ←
    if ← take? (· == '.') then do pure (some (← number (pow2 31 - 1) .tooPrecise "int").toNat)
    else pure none
  let _ ← take? "hlL".toList.contains
  pure
    { leftward := flags.contains '-' || width < 0
      signed := flags.contains '+'
      spaced := flags.contains ' '
      marked := flags.contains '#'
      zeros := flags.contains '0'
      width := width.natAbs
      precision }

end PlaceReader

namespace Place

def fill (p : Place) (t : Text) : Text :=
  if p.leftward then t ++ List.replicate (p.width - t.length) ' '
  else Number.padLeft p.width ' ' t

def fillNumber (p : Place) (negative : Bool) (mark digits : Text) : Text :=
  let sign := if negative then ['-'] else if p.signed then ['+'] else if p.spaced then [' '] else []
  let front := sign ++ mark
  if p.zeros && !p.leftward then
    front ++ Number.padLeft (p.width - front.length) '0' digits
  else p.fill (front ++ digits)

def text (p : Place) (t : Text) : Text := p.fill (p.precision.elim t t.take)

def whole (p : Place) (base : Nat) (mark : Text) (n : Int) : Text :=
  let digits := Number.padLeft (p.precision.getD 0) '0' (Nat.toDigits base n.natAbs)
  p.fillNumber (n < 0) (if p.marked then mark else []) digits

def real (p : Place) (style : Number.RealStyle) (x : Binary64) : Text :=
  p.fillNumber (x.negative && !x.isNan) [] (style.magnitude p.marked (p.precision.getD 6) x)

end Place

def wholeOf (letter : Char) : Json → Except TemplateFault Int
  | .int n => .ok n
  | .bool b => .ok (if b then 1 else 0)
  | .float x =>
    if x.isNan then .error .notANumber
    else if x.code = Binary64.infinityCode then .error .infinite
    else
      let (num, den) := Binary64.ratio x.code
      let whole : Int := (num / den : Nat)
      .ok (if x.negative then -whole else whole)
  | j => .error (.notNumber letter j.kind)

def exactOf (letter : Char) : Json → Except TemplateFault Int
  | .int n => .ok n
  | .bool b => .ok (if b then 1 else 0)
  | j => .error (.notWhole letter j.kind)

def realOf : Json → Except TemplateFault Binary64
  | .float x => .ok x
  | .bool b => .ok (.ofInt (if b then 1 else 0))
  | .int n =>
    let x := Binary64.ofInt n
    if x.code = Binary64.infinityCode then .error .tooLarge else .ok x
  | j => .error (.notReal j.kind)

def characterOf : Json → Except TemplateFault Char
  | .string s =>
    match s.toList with
    | [c] => .ok c
    | _ => .error .notCharacter
  | .int n => if n < 0 || 0x110000 ≤ n then .error .noCharacter else .ok (Char.ofNat n.toNat)
  | .bool b => .ok (Char.ofNat (if b then 1 else 0))
  | _ => .error .notCharacter

def upper (t : Text) : Text := t.map Char.toUpper

def placed (p : Place) (letter : Char) (index : Nat) (j : Json) : Except TemplateFault Text :=
  match letter with
  | 's' => (j.shown.map p.text).mapError .written
  | 'r' => (j.quoted.map p.text).mapError .written
  | 'a' => ((j.quotedWith Text.quotedPlainly).map p.text).mapError .written
  | 'c' => (characterOf j).map fun c => p.fill [c]
  | 'd' | 'i' | 'u' => do
    let n ← wholeOf letter j
    if Number.isShort n then pure (p.whole 10 [] n) else throw (.written .tooLong)
  | 'o' => (exactOf letter j).map (p.whole 8 ['0', 'o'])
  | 'x' => (exactOf letter j).map (p.whole 16 ['0', 'x'])
  | 'X' => (exactOf letter j).map fun n => upper (p.whole 16 ['0', 'x'] n)
  | 'f' => (realOf j).map (p.real .plain)
  | 'e' => (realOf j).map (p.real .exponent)
  | 'g' => (realOf j).map (p.real .either)
  | 'F' => (realOf j).map fun x => upper (p.real .plain x)
  | 'E' => (realOf j).map fun x => upper (p.real .exponent x)
  | 'G' => (realOf j).map fun x => upper (p.real .either x)
  | c => .error (.unknownPlace c index)

def PlaceReader.fill (size : Nat) : PlaceReader Text := do
  if ← take? (· == '%') then pure ['%']
  else
    let p ← place
    let letter ← peek
    let index := size - (← get).1.length
    let _ ← take? fun _ => true
    placed p letter index (← argument)

def fillFrom (size : Nat) (a : Arguments) : Nat → Text → Except TemplateFault Text
  | 0, _ => .ok []
  | fuel + 1, t => do
    let plain := t.takeWhile (· != '%')
    match t.dropWhile (· != '%') with
    | [] =>
      a.finish
      pure plain
    | _ :: rest =>
      let (shown, rest, a) ← (PlaceReader.fill size).run (rest, a)
      pure (plain ++ shown ++ (← fillFrom size a fuel rest))

def fill (template : Text) (a : Arguments) : Except TemplateFault Text :=
  fillFrom template.length a (template.length + 1) template

end Conditions.Journal
