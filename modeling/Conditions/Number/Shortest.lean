import Conditions.Number.Binary64

/-!
# Shortest decimal text

A number is written with the fewest digits that read back as the same number and, among those, the
ones nearest to it. How the digits are laid out is a separate decision, kept in one record.
-/

set_option autoImplicit false

namespace Conditions.Number

structure Digits where
  digits : Nat
  count : Nat
  power : Int

/-- The magnitudes that round to a given one, as `low` and `high` in quarters of its unit, with
their exponent of two; the ends belong to it exactly if its mantissa is even. -/
structure Cell where
  low : Nat
  middle : Nat
  high : Nat
  exponent : Int
  closed : Bool

def cell (code : Nat) : Cell :=
  let (m, q) := Binary64.parts code
  let below := if m = pow2 52 && -1074 < q then 1 else 2
  ⟨4 * m - below, 4 * m, 4 * m + 2, q - 2, m % 2 == 0⟩

def Cell.reads (c : Cell) (digits : Nat) (power : Int) : Bool :=
  let ten := pow10 power.natAbs
  let two := pow2 c.exponent.natAbs
  let left := digits * (if power < 0 then 1 else ten) * (if c.exponent < 0 then two else 1)
  let scale := (if power < 0 then ten else 1) * (if c.exponent < 0 then 1 else two)
  if c.closed then c.low * scale ≤ left && left ≤ c.high * scale
  else c.low * scale < left && left < c.high * scale

def decimalExponent (num den : Nat) : Int :=
  let guess : Int := (Decimal.digitCount num : Int) - Decimal.digitCount den
  let reached := if guess < 0 then den ≤ num * pow10 guess.natAbs else den * pow10 guess.natAbs ≤ num
  if reached then guess else guess - 1

/-- The two neighbours of `num / den` among multiples of `10 ^ power`, nearer one first; an exact
tie goes to the even one. -/
def neighbours (num den : Nat) (power : Int) : Nat × Nat :=
  let top := if power < 0 then num * pow10 power.natAbs else num
  let bottom := if power < 0 then den else den * pow10 power.natAbs
  let floor := top / bottom
  let near := Binary64.roundDiv top bottom
  if near = floor then (floor, floor + 1) else (floor + 1, floor)

def searchDigits (code num den : Nat) (top : Int) : Nat → Digits
  | 0 =>
    let power := top - 16
    ⟨(neighbours num den power).1, 17, top⟩
  | left + 1 =>
    let count := 16 - left
    let power := top - (count - 1 : Nat)
    let (near, far) := neighbours num den power
    if (cell code).reads near power then ⟨near, count, top⟩
    else if (cell code).reads far power then ⟨far, count, top⟩
    else searchDigits code num den top left

def shortest (code : Nat) : Digits :=
  let (num, den) := Binary64.ratio code
  let found := searchDigits code num den (decimalExponent num den) 16
  if pow10 found.count ≤ found.digits then ⟨found.digits / 10, found.count, found.power + 1⟩
  else found

structure Layout where
  least : Int
  most : Int
  exponentWidth : Nat
  nan : String
  infinity : String

def plain : Layout := ⟨-4, 16, 2, "nan", "inf"⟩

def padLeft (width : Nat) (fill : Char) (t : Text) : Text :=
  List.replicate (width - t.length) fill ++ t

def natText (n : Nat) : Text := Nat.toDigits 10 n

def trimZeros (t : Text) : Text :=
  match (t.reverse.dropWhile (· == '0')).reverse with
  | [] => t.take 1
  | kept => kept

def Layout.digits (l : Layout) (d : Digits) : Text :=
  let text := trimZeros (natText d.digits)
  if l.least ≤ d.power && d.power < l.most then
    if d.power < 0 then
      '0' :: '.' :: (List.replicate (d.power.natAbs - 1) '0' ++ text)
    else
      let whole := d.power.toNat + 1
      let front := text.take whole ++ List.replicate (whole - text.length) '0'
      let back := text.drop whole
      front ++ '.' :: (if back.isEmpty then ['0'] else back)
  else
    let front := text.take 1 ++ (if text.length ≤ 1 then [] else '.' :: text.drop 1)
    front ++ 'e' :: (if d.power < 0 then '-' else '+') ::
      padLeft l.exponentWidth '0' (natText d.power.natAbs)

def Layout.text (l : Layout) (x : Binary64) : Text :=
  if x.isNan then l.nan.toList
  else
    let magnitude :=
      if x.code = Binary64.infinityCode then l.infinity.toList
      else if x.code = 0 then ['0', '.', '0']
      else l.digits (shortest x.code)
    if x.negative then '-' :: magnitude else magnitude

end Conditions.Number
