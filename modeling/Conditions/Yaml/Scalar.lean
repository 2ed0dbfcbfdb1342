import Conditions.Number.Real
import Conditions.Text.Base64
import Conditions.Text.Lowercase
import Conditions.Text.Quoted
import Conditions.Yaml.Tag
import Conditions.Yaml.Value

/-!
# Scalars

What a scalar of a type stands for. A tag may demand a type that the scalar does not look like, so
numbers are read in more forms than the ones by which they are recognized.
-/

set_option autoImplicit false

namespace Conditions.Yaml

inductive ScalarFault where
  | noDigits
  | notInteger (base : Nat) (t : Text)
  | tooManyDigits (count : Nat)
  | notNumber (t : Text)
  | tooManyPlaces
  | notTruth (t : Text)
  | notMoment
  | moment (fault : MomentFault)
  | notText
  | endless
  | noCharacter
  /-- An escape for half of a pair of surrogates, which no text can have here. -/
  | halfCharacter
  | noCode
  | tooLong
  deriving DecidableEq, Repr

def ScalarFault.message : ScalarFault → String
  | .noDigits => "string index out of range"
  | .notInteger base t =>
    let shown := String.ofList ((Text.quoted t).take 200)
    s!"invalid literal for int() with base {base}: {shown}"
  | .tooManyDigits count => Number.digitLimit count
  | .notNumber t =>
    let shown := String.ofList (Text.quoted t)
    s!"could not convert string to float: {shown}"
  | .tooManyPlaces => "int too large to convert to float"
  | .notTruth t => String.ofList (Text.quoted t)
  | .notMoment => "'NoneType' object has no attribute 'groupdict'"
  | .moment fault => fault.message
  | .notText => "expected string or bytes-like object, got 'list'"
  | .endless => "maximum recursion depth exceeded"
  | .noCharacter => "chr() arg not in range(0x110000)"
  | .halfCharacter => "surrogates not allowed"
  | .noCode => "Python int too large to convert to C int"
  | .tooLong => Number.textLimit

def ScalarFault.kind : ScalarFault → String
  | .notTruth _ => "KeyError"
  | .notMoment => "AttributeError"
  | .noDigits => "IndexError"
  | .notText => "TypeError"
  | .endless => "RecursionError"
  | .tooManyPlaces | .noCode => "OverflowError"
  | _ => "ValueError"

inductive Fault where
  | invalid
  | scalar (fault : ScalarFault)
  deriving DecidableEq, Repr

def withoutMarks (t : Text) : Text := t.filter (· != '_')

def readIn (base : Nat) (t : Text) : Except ScalarFault Int :=
  (Number.readInteger base t).mapError fun fault =>
    match fault with
    | .malformed => .notInteger base t
    | .tooManyDigits count => .tooManyDigits count

def readMagnitude (t : Text) : Except ScalarFault Int :=
  match t with
  | [] => .error .noDigits
  | ['0'] => .ok 0
  | '0' :: 'b' :: rest => readIn 2 rest
  | '0' :: 'x' :: rest => readIn 16 rest
  | '0' :: _ => readIn 8 t
  | t =>
    if t.contains ':' then do
      let places ← (Text.pieces ':' t).mapM (readIn 10)
      pure (places.foldl (fun n p => 60 * n + p) 0)
    else readIn 10 t

def readWhole (t : Text) : Except ScalarFault Int := do
  let (negative, t) := Decimal.splitSign (withoutMarks t)
  let n ← readMagnitude t
  pure (if negative then -n else n)

def readReal (t : Text) : Except ScalarFault Binary64 :=
  match Number.readReal? t with
  | some x => .ok x
  | none => .error (.notNumber t)

def sumPlaces : Nat → Binary64 → List Binary64 → Except ScalarFault Binary64
  | _, sum, [] => .ok sum
  | unit, sum, place :: rest =>
    match place.scale? unit with
    | some part => sumPlaces (unit * 60) (sum.add part) rest
    | none => .error .tooManyPlaces

def readPlaces (t : Text) : Except ScalarFault Binary64 :=
  if t = ".inf".toList then .ok (.infinity false)
  else if t.contains ':' then do
    let places ← (Text.pieces ':' t).mapM readReal
    sumPlaces 1 ⟨false, 0⟩ places.reverse
  else readReal t

def readFraction (number : Nat) (t : Text) : Except ScalarFault Value := do
  let t := Text.lower (withoutMarks t)
  if t.isEmpty then throw .noDigits
  let (negative, t) := Decimal.splitSign t
  if t = ".nan".toList then pure (.notNumber none)
  else
    let x ← readPlaces t
    if x.isNan then pure (.notNumber (some number))
    else pure (.float (if negative then x.negate else x))

def readTruth (t : Text) : Except ScalarFault Bool :=
  let word := Text.lower t
  match truths.find? fun e => e.1.toList == word with
  | some e => .ok e.2
  | none => .error (.notTruth word)

def readMoment (t : Text) : Except ScalarFault Moment :=
  match moment? (withoutLineEnd t) with
  | some m => m.check.mapError .moment
  | none => .error .notMoment

def readBytes (t : Text) : Except Fault (List Nat) :=
  match if t.all (·.toNat < 0x80) then Text.decodeBase64? t else none with
  | some bytes => .ok bytes
  | none => .error .invalid

def scalarValue (number : Nat) (tag : Tag) (t : Text) : Except Fault Value :=
  match tag with
  | .null => .ok .null
  | .bool => ((readTruth t).map Value.bool).mapError .scalar
  | .int => ((readWhole t).map Value.int).mapError .scalar
  | .float => (readFraction number t).mapError .scalar
  | .moment => ((readMoment t).map Value.moment).mapError .scalar
  | .string => .ok (.string t)
  | .binary => (readBytes t).map Value.bytes
  | _ => .error .invalid

end Conditions.Yaml
