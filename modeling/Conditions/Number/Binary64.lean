import Conditions.Number.Decimal

/-!
# Binary floating point

Numbers of 64 bits: a sign and a magnitude. The magnitude is kept as its 63-bit code, in which the
order of numbers is the order of codes, infinity stands above all finite numbers and the codes
above infinity are no numbers. Rounding goes to the nearest number and halfway cases to the one
with an even code.
-/

set_option autoImplicit false

namespace Conditions

def pow2 (n : Nat) : Nat := Nat.pow 2 n

def pow10 (n : Nat) : Nat := Nat.pow 10 n

structure Binary64 where
  negative : Bool
  code : Nat
  deriving Repr, DecidableEq, Inhabited

namespace Binary64

def infinityCode : Nat := 0x7ff * pow2 52

def infinity (negative : Bool) : Binary64 := ⟨negative, infinityCode⟩

def nan : Binary64 := ⟨false, infinityCode + pow2 51⟩

def isNan (x : Binary64) : Bool := infinityCode < x.code

def roundDiv (num den : Nat) : Nat :=
  let floor := num / den
  let twice := 2 * (num % den)
  if twice < den then floor
  else if den < twice then floor + 1
  else floor + floor % 2

def unitExponent (num den : Nat) : Int :=
  let guess : Int := (num.log2 : Int) - den.log2 - 53
  let scaled := if guess < 0 then num * pow2 (-guess).toNat else num
  let unit := if guess < 0 then den else den * pow2 guess.toNat
  max (-1074) (if unit * pow2 53 ≤ scaled then guess + 1 else guess)

/-- The code of the number nearest to `num / den`. Counting the hidden bit of the mantissa into the
exponent makes a carry out of the mantissa come out right. -/
def codeOfRatio (num den : Nat) : Nat :=
  if num = 0 then 0
  else
    let q := unitExponent num den
    let m := if q < 0 then roundDiv (num * pow2 (-q).toNat) den
      else roundDiv num (den * pow2 q.toNat)
    min infinityCode ((q + 1074).toNat * pow2 52 + m)

/-- The code of the number nearest to `units · 10 ^ exponent`. Magnitudes of `10 ^ 309` and above
are past the largest number, those below `10 ^ (-324)` are less than half the smallest. -/
def codeOfDecimal (units : Nat) (exponent : Int) : Nat :=
  let digits : Int := Decimal.digitCount units
  if units = 0 then 0
  else if 309 < digits + exponent then infinityCode
  else if digits + exponent < -323 then 0
  else if exponent < 0 then codeOfRatio units (pow10 (-exponent).toNat)
  else codeOfRatio (units * pow10 exponent.toNat) 1

def ofDecimal (d : Decimal) : Binary64 :=
  ⟨d.negative, codeOfDecimal d.units d.exponent⟩

def ofInt (n : Int) : Binary64 := ⟨n < 0, codeOfRatio n.natAbs 1⟩

def parts (code : Nat) : Nat × Int :=
  if code < pow2 52 then (code, -1074)
  else (pow2 52 + code % pow2 52, (code / pow2 52 : Nat) - 1075)

def ratio (code : Nat) : Nat × Nat :=
  let (m, q) := parts code
  if q < 0 then (m, pow2 (-q).toNat) else (m * pow2 q.toNat, 1)

def rank (x : Binary64) : Int := if x.negative then -(x.code : Int) else x.code

def lt (x y : Binary64) : Bool := !x.isNan && !y.isNan && x.rank < y.rank

def le (x y : Binary64) : Bool := !x.isNan && !y.isNan && x.rank ≤ y.rank

end Binary64

end Conditions
