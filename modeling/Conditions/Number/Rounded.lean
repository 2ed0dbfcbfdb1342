import Conditions.Number.Shortest

/-!
# Decimal text of a chosen precision

A magnitude is rounded to as many decimal digits as are asked for, halfway cases to the even
neighbour, and laid out in plain notation, with an exponent, or in whichever of the two suits its
size.
-/

set_option autoImplicit false

namespace Conditions.Number

def roundedAt (num den : Nat) (power : Int) : Nat :=
  if power < 0 then Binary64.roundDiv (num * pow10 power.natAbs) den
  else Binary64.roundDiv num (den * pow10 power.natAbs)

def leading (num den count : Nat) : Digits :=
  if num = 0 then ⟨0, count, 0⟩
  else
    let top := decimalExponent num den
    let digits := roundedAt num den (top - (count - 1 : Nat))
    if digits = pow10 count then ⟨digits / 10, count, top + 1⟩ else ⟨digits, count, top⟩

def withPoint (pointed : Bool) (places : Nat) (digits : Nat) : Text :=
  let t := padLeft (places + 1) '0' (natText digits)
  let whole := t.length - places
  t.take whole ++ (if places = 0 && !pointed then [] else '.' :: t.drop whole)

def trimFraction (t : Text) : Text :=
  if t.contains '.' then
    (t.reverse.dropWhile (· == '0') |>.dropWhile (· == '.')).reverse
  else t

def powerText (power : Int) : Text :=
  'e' :: (if power < 0 then '-' else '+') :: padLeft 2 '0' (natText power.natAbs)

inductive RealStyle where
  | plain
  | exponent
  | either
  deriving DecidableEq, Repr, Inhabited

def RealStyle.ratio (s : RealStyle) (pointed : Bool) (precision num den : Nat) : Text :=
  match s with
  | .plain => withPoint pointed precision (roundedAt num den (-precision))
  | .exponent =>
    let d := leading num den (precision + 1)
    withPoint pointed precision d.digits ++ powerText d.power
  | .either =>
    let d := leading num den (max 1 precision)
    let trim := if pointed then id else trimFraction
    if -4 ≤ d.power && d.power < d.count then
      trim (withPoint pointed (d.count - 1 - d.power).toNat d.digits)
    else trim (withPoint pointed (d.count - 1) d.digits) ++ powerText d.power

def RealStyle.magnitude (s : RealStyle) (pointed : Bool) (precision : Nat) (x : Binary64) : Text :=
  if x.isNan then ['n', 'a', 'n']
  else if x.code = Binary64.infinityCode then ['i', 'n', 'f']
  else
    let (num, den) := Binary64.ratio x.code
    s.ratio pointed precision num den

end Conditions.Number
