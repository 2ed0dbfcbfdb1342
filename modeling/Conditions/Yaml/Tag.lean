import Conditions.Number.Decimal
import Conditions.Yaml.Moment

/-!
# Types

A node has a tag, the name of its type. A scalar without a tag has the type that it looks like: a
number, a truth value, null, a moment, or else a text. Whole numbers may be written in bases two,
eight, ten, sixteen and sixty, fractions in bases ten and sixty, all of them with underscores.
-/

set_option autoImplicit false

namespace Conditions.Yaml

inductive Tag where
  | null
  | bool
  | int
  | float
  | moment
  | string
  | binary
  | merge
  | value
  | sequence
  | mapping
  | pairs
  | set
  | foreign (name : Text)
  deriving DecidableEq, Repr, Inhabited

namespace Tag

def names : List (String × Tag) :=
  [("null", .null), ("bool", .bool), ("int", .int), ("float", .float), ("timestamp", .moment),
   ("str", .string), ("binary", .binary), ("merge", .merge), ("value", .value), ("seq", .sequence),
   ("map", .mapping), ("omap", .pairs), ("pairs", .pairs), ("set", .set)]

def common : String := "tag:yaml.org,2002:"

def ofName (name : Text) : Tag :=
  match names.find? fun e => (common ++ e.1).toList == name with
  | some e => e.2
  | none => .foreign name

end Tag

def isDigitOr (ok : Char → Bool) (c : Char) : Bool := ok c || c == '_'

def isRun (ok : Char → Bool) (t : Text) : Bool := !t.isEmpty && t.all (isDigitOr ok)

def isBinary (c : Char) : Bool := c == '0' || c == '1'

def isOctal (c : Char) : Bool := '0' ≤ c && c ≤ '7'

def isHex (c : Char) : Bool := c.isDigit || ('a' ≤ c && c ≤ 'f') || ('A' ≤ c && c ≤ 'F')

def startsWithDigit (t : Text) : Bool := (t.head?.map Char.isDigit).getD false

def isSixtieth : Text → Bool
  | [c] => c.isDigit
  | [c, d] => '0' ≤ c && c ≤ '5' && d.isDigit
  | _ => false

def isMagnitude (t : Text) : Bool :=
  match t with
  | '0' :: 'b' :: rest => isRun isBinary rest
  | '0' :: 'x' :: rest => isRun isHex rest
  | '0' :: rest => rest.all (isDigitOr isOctal)
  | t =>
    match Text.pieces ':' t with
    | first :: places =>
      startsWithDigit first && isRun Char.isDigit first && places.all isSixtieth
    | [] => false

def isInteger (t : Text) : Bool := isMagnitude (Decimal.splitSign t).2

def isPower : Text → Bool
  | [] => true
  | e :: sign :: digits =>
    (e == 'e' || e == 'E') && (sign == '+' || sign == '-') && !digits.isEmpty &&
      digits.all Char.isDigit
  | _ => false

def isPointed (t : Text) : Bool :=
  let whole := t.takeWhile (isDigitOr Char.isDigit)
  match t.dropWhile (isDigitOr Char.isDigit) with
  | '.' :: rest => startsWithDigit whole && isPower (rest.dropWhile (isDigitOr Char.isDigit))
  | _ => false

def isBehindPoint (t : Text) : Bool :=
  match t with
  | '.' :: rest => startsWithDigit rest && isPower (rest.dropWhile (isDigitOr Char.isDigit))
  | _ => false

def isSexagesimal (t : Text) : Bool :=
  match Text.pieces ':' t with
  | first :: second :: rest =>
    let places := second :: rest
    match Text.splitAt? '.' (places.getLastD []) with
    | some (whole, part) =>
      startsWithDigit first && isRun Char.isDigit first && places.dropLast.all isSixtieth &&
        isSixtieth whole && part.all (isDigitOr Char.isDigit)
    | none => false
  | _ => false

def infinities : List String := [".inf", ".Inf", ".INF"]

def notNumbers : List String := [".nan", ".NaN", ".NAN"]

def isFraction (t : Text) : Bool :=
  let rest := (Decimal.splitSign t).2
  infinities.contains (String.ofList rest) || notNumbers.contains (String.ofList t) ||
    isPointed rest || isBehindPoint t || isSexagesimal rest

def number? (least most : Nat) (t : Text) : Option (Nat × Text) :=
  let digits := (t.take most).takeWhile Char.isDigit
  if least ≤ digits.length then some (Decimal.ofDigits digits, t.drop digits.length) else none

def mark? (c : Char) : Text → Option Text
  | d :: rest => if c = d then some rest else none
  | [] => none

def isGap (c : Char) : Bool := c == ' ' || c == '\t'

def micros (digits : Text) : Nat :=
  let kept := digits.take 6
  Decimal.ofDigits (kept ++ List.replicate (6 - kept.length) '0')

def offset? : Text → Option (Option Int)
  | [] => some none
  | t =>
    match t.dropWhile isGap with
    | ['Z'] => some (some 0)
    | sign :: rest => do
      if sign != '+' && sign != '-' then none
      let (hours, rest) ← number? 1 2 rest
      let (minutes, rest) ← match rest with
        | ':' :: rest => number? 2 2 rest
        | rest => some (0, rest)
      let east : Int := hours * 60 + minutes
      if rest.isEmpty then some (some (if sign = '-' then -east else east)) else none
    | [] => none

def clock? (t : Text) : Option Clock := do
  let (hour, t) ← number? 1 2 t
  let (minute, t) ← number? 2 2 (← mark? ':' t)
  let (second, t) ← number? 2 2 (← mark? ':' t)
  let (fraction, t) := match t with
    | '.' :: rest => (rest.takeWhile Char.isDigit, rest.dropWhile Char.isDigit)
    | t => ([], t)
  let offset ← offset? t
  pure ⟨hour, minute, second, micros fraction, offset⟩

def moment? (t : Text) : Option Moment := do
  let (year, t) ← number? 4 4 t
  let (month, t) ← number? 1 2 (← mark? '-' t)
  let (day, t) ← number? 1 2 (← mark? '-' t)
  match t with
  | [] => pure ⟨year, month, day, none⟩
  | c :: rest =>
    if c = 'T' || c = 't' then pure ⟨year, month, day, some (← clock? rest)⟩
    else if isGap c then pure ⟨year, month, day, some (← clock? (rest.dropWhile isGap))⟩
    else none

def isMoment (t : Text) : Bool :=
  match moment? t with
  | some m => m.clock.isSome || t.length == 10
  | none => false

def nulls : List String := ["", "~", "null", "Null", "NULL"]

def truths : List (String × Bool) :=
  [("yes", true), ("no", false), ("true", true), ("false", false), ("on", true), ("off", false)]

def spellings (word : String) : List Text :=
  let t := word.toList
  [t, (t.take 1).map Char.toUpper ++ t.drop 1, t.map Char.toUpper]

def isTruth (t : Text) : Bool := truths.any fun e => (spellings e.1).contains t

def marks : List String := ["!", "&", "*"]

def withoutLineEnd (t : Text) : Text := if t.getLast? = some '\n' then t.dropLast else t

def Tag.ofLook (t : Text) : Tag :=
  if t = ['\n'] then .string
  else
    let t := withoutLineEnd t
    let word := String.ofList t
    if nulls.contains word then .null
    else if isTruth t then .bool
    else if isFraction t then .float
    else if isInteger t then .int
    else if t = ['<', '<'] then .merge
    else if isMoment t then .moment
    else if t = ['='] then .value
    else if marks.contains word then .foreign (Tag.common ++ "yaml").toList
    else .string

end Conditions.Yaml
