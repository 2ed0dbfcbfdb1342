import Conditions.Text.Basic

/-!
# Decimal numbers

A decimal is a sign, a whole number of units and a power of ten. Its plain written form has digits
with an optional point and an optional exponent, in ASCII digits and without any other mark.
-/

set_option autoImplicit false

namespace Conditions

structure Decimal where
  negative : Bool
  units : Nat
  exponent : Int
  deriving Repr, DecidableEq, Inhabited

namespace Decimal

def ofDigits (digits : Text) : Nat :=
  digits.foldl (fun n c => 10 * n + (c.toNat - 48)) 0

def splitSign : Text → Bool × Text
  | '-' :: rest => (true, rest)
  | '+' :: rest => (false, rest)
  | rest => (false, rest)

def readPower? (t : Text) : Option Int :=
  let (negative, digits) := splitSign t
  if digits.isEmpty || !digits.all Char.isDigit then none
  else some (if negative then -(ofDigits digits : Int) else ofDigits digits)

def readExponent? : Text → Option Int
  | [] => some 0
  | 'e' :: rest => readPower? rest
  | 'E' :: rest => readPower? rest
  | _ => none

def readUnsigned? (t : Text) : Option (Nat × Int) :=
  let whole := t.takeWhile Char.isDigit
  match t.dropWhile Char.isDigit with
  | '.' :: rest =>
    let part := rest.takeWhile Char.isDigit
    if whole.isEmpty && part.isEmpty then none
    else (readExponent? (rest.dropWhile Char.isDigit)).map fun e =>
      (ofDigits (whole ++ part), e - part.length)
  | rest =>
    if whole.isEmpty then none
    else (readExponent? rest).map fun e => (ofDigits whole, e)

def read? (t : Text) : Option Decimal :=
  let (negative, rest) := splitSign t
  (readUnsigned? rest).map fun (units, exponent) => ⟨negative, units, exponent⟩

def digitCount (n : Nat) : Nat := if n = 0 then 0 else (Nat.toDigits 10 n).length

end Decimal

end Conditions
