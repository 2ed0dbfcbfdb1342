import Conditions.Number.Shortest
import Conditions.Text.DecimalDigit

/-!
# Whole numbers from text

A whole number has an optional sign and digits of any script, with single underscores between
digits, and may stand between spaces. In bases two, eight and sixteen a zero and the letter of the
base may stand in front of the digits. Of other bases more than 4300 digits are not read, nor
written.
-/

set_option autoImplicit false

namespace Conditions.Number

def isPadding (c : Char) : Bool := c == ' ' || (0x09 ≤ c.toNat && c.toNat ≤ 0x0d)

def asciiChar (c : Char) : Char :=
  if c.toNat < 0x80 then c
  else if Text.isBlank c then ' '
  else match Text.decimalDigit? c with
    | some d => Char.ofNat (48 + d)
    | none => '?'

def trim (t : Text) : Text := ((t.dropWhile isPadding).reverse.dropWhile isPadding).reverse

def maxDigits : Nat := 4300

inductive IntegerFault where
  | malformed
  | tooManyDigits (count : Nat)
  deriving DecidableEq, Repr

def digitLimit (count : Nat) : String :=
  s!"Exceeds the limit ({maxDigits} digits) for integer string conversion: value has {count} " ++
    "digits; use sys.set_int_max_str_digits() to increase the limit"

def textLimit : String :=
  s!"Exceeds the limit ({maxDigits} digits) for integer string conversion; " ++
    "use sys.set_int_max_str_digits() to increase the limit"

def isShort (n : Int) : Bool := n.natAbs < pow10 maxDigits

def intText (n : Int) : Text := if n < 0 then '-' :: natText n.natAbs else natText n.natAbs

def digitIn? (base : Nat) (c : Char) : Option Nat :=
  let value := if c.isDigit then c.toNat - 48
    else if 'a' ≤ c && c ≤ 'f' then c.toNat - 87
    else if 'A' ≤ c && c ≤ 'F' then c.toNat - 55
    else base
  if value < base then some value else none

def valueIn (base : Nat) (digits : Text) : Nat :=
  (digits.filterMap (digitIn? base)).foldl (fun n d => base * n + d) 0

def baseLetter? (base : Nat) : Option Char := [(2, 'b'), (8, 'o'), (16, 'x')].lookup base

def withoutBase (base : Nat) (t : Text) : Text :=
  match t with
  | '0' :: c :: rest =>
    if baseLetter? base == some c.toLower then
      match rest with
      | '_' :: rest => rest
      | rest => rest
    else t
  | t => t

def readInteger (base : Nat) (t : Text) : Except IntegerFault Int :=
  let (negative, rest) := Decimal.splitSign (trim (t.map asciiChar))
  let rest := withoutBase base rest
  let isPart := fun c => c == '_' || (digitIn? base c).isSome
  let groups := Text.pieces '_' (rest.takeWhile isPart)
  let digits := groups.flatten
  if groups.any List.isEmpty then .error .malformed
  else if (baseLetter? base).isNone && maxDigits < digits.length then
    .error (.tooManyDigits digits.length)
  else if !(rest.dropWhile isPart).isEmpty then .error .malformed
  else .ok (if negative then -(valueIn base digits : Int) else valueIn base digits)

end Conditions.Number
