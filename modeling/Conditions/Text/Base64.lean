import Conditions.Text.Basic

/-!
# Base 64

Bytes are written in a text in groups: four characters say three bytes, and a mark fills up the last
group if it says fewer. Characters without a value are passed over, so a text may have line ends.
-/

set_option autoImplicit false

namespace Conditions.Text

def sextet? (c : Char) : Option Nat :=
  if c.isUpper then some (c.toNat - 'A'.toNat)
  else if c.isLower then some (c.toNat - 'a'.toNat + 26)
  else if c.isDigit then some (c.toNat - '0'.toNat + 52)
  else if c = '+' then some 62
  else if c = '/' then some 63
  else none

def groupBytes : List Nat → List Nat
  | [a, b] => [(a * 64 + b) / 16]
  | [a, b, c] => [(a * 64 + b) / 16, ((b * 64 + c) / 4) % 256]
  | [a, b, c, d] => [(a * 64 + b) / 16, ((b * 64 + c) / 4) % 256, (c * 64 + d) % 256]
  | _ => []

def decodeGroup (group : List Nat) (marks : Nat) : Text → Option (List Nat)
  | [] => if group.isEmpty then some [] else none
  | c :: rest =>
    if c = '=' then
      if group.length < 2 then decodeGroup group marks rest
      else if group.length + marks < 3 then decodeGroup group (marks + 1) rest
      else some (groupBytes group)
    else match sextet? c with
      | none => decodeGroup group marks rest
      | some n =>
        let group := group ++ [n]
        if group.length = 4 then (decodeGroup [] 0 rest).map (groupBytes group ++ ·)
        else decodeGroup group 0 rest

def decodeBase64? (t : Text) : Option (List Nat) := decodeGroup [] 0 t

end Conditions.Text
