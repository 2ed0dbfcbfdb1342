import Conditions.Text.Lowercase
import Conditions.Text.PrintableTable

/-!
# Quoted texts

The form in which a text is shown in a message: in single quotes, or in double quotes when it holds
a single quote and no double one, with everything that has no printed form as an escape.
-/

set_option autoImplicit false

namespace Conditions.Text

def isPrintable (c : Char) : Bool := !inRanges unprintableRanges c

def hexDigit (n : Nat) : Char := if n < 10 then Char.ofNat (48 + n) else Char.ofNat (87 + n)

def hex : Nat → Nat → Text
  | 0, _ => []
  | width + 1, n => hex width (n / 16) ++ [hexDigit (n % 16)]

def codeEscape (c : Char) : Text :=
  if c.toNat < 0x100 then '\\' :: 'x' :: hex 2 c.toNat
  else if c.toNat < 0x10000 then '\\' :: 'u' :: hex 4 c.toNat
  else '\\' :: 'U' :: hex 8 c.toNat

def quotedChar (mark c : Char) : Text :=
  if c = mark || c = '\\' then ['\\', c]
  else if c = '\n' then ['\\', 'n']
  else if c = '\r' then ['\\', 'r']
  else if c = '\t' then ['\\', 't']
  else if isPrintable c then [c]
  else codeEscape c

def quoteMark (t : Text) : Char := if t.contains '\'' && !t.contains '"' then '"' else '\''

def quoted (t : Text) : Text :=
  let mark := quoteMark t
  mark :: t.flatMap (quotedChar mark) ++ [mark]

def quotedPlainly (t : Text) : Text :=
  (quoted t).flatMap fun c => if c.toNat < 0x80 then [c] else codeEscape c

def quotedBytes (bytes : List Nat) : Text :=
  let mark := quoteMark (bytes.map Char.ofNat)
  let quotedByte := fun b =>
    if b < 0x80 then quotedChar mark (Char.ofNat b) else '\\' :: 'x' :: hex 2 b
  'b' :: mark :: bytes.flatMap quotedByte ++ [mark]

end Conditions.Text
