import Conditions.Number.Binary64
import Conditions.Number.Integer

/-!
# Binary fractions from text, and sums of them

Besides a decimal a text may name infinity, or what is no number, in any case. A sum or a product is
the number nearest to the exact one.
-/

set_option autoImplicit false

namespace Conditions

namespace Number

def realWords : List (String × Binary64) :=
  [("inf", .infinity false), ("infinity", .infinity false), ("nan", .nan)]

def readReal? (t : Text) : Option Binary64 :=
  let t := trim (t.map asciiChar)
  match Decimal.read? t with
  | some d => some (.ofDecimal d)
  | none =>
    let (negative, word) := Decimal.splitSign t
    (realWords.lookup (String.ofList (word.map Char.toLower))).map fun x => { x with negative }

end Number

namespace Binary64

def negate (x : Binary64) : Binary64 := { x with negative := !x.negative }

def fraction (x : Binary64) : Int × Nat :=
  let (num, den) := ratio x.code
  (if x.negative then -(num : Int) else num, den)

def add (x y : Binary64) : Binary64 :=
  if x.isNan || y.isNan then nan
  else if x.code = infinityCode then
    if y.code = infinityCode && x.negative != y.negative then nan else x
  else if y.code = infinityCode then y
  else
    let (n, d) := x.fraction
    let (m, e) := y.fraction
    let sum := n * e + m * d
    if sum = 0 then ⟨x.negative && y.negative, 0⟩
    else ⟨sum < 0, codeOfRatio sum.natAbs (d * e)⟩

def scale? (x : Binary64) (n : Nat) : Option Binary64 :=
  let factor := codeOfRatio n 1
  if factor = infinityCode then none
  else if infinityCode ≤ x.code then some x
  else
    let (a, b) := ratio x.code
    let (c, d) := ratio factor
    some ⟨x.negative, codeOfRatio (a * c) (b * d)⟩

end Binary64

end Conditions
