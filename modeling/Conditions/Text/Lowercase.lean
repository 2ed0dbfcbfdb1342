import Conditions.Text.Basic
import Conditions.Text.LowercaseTable

/-!
# Lower-casing

Every character goes to its lower-case form on its own, except two: the dotted capital I becomes
two characters, and the capital sigma takes its final form at the end of a word, that is behind a
cased character and not in front of one.
-/

set_option autoImplicit false

namespace Conditions.Text

def inRanges (ranges : List (Nat × Nat)) (c : Char) : Bool :=
  ranges.any fun r => r.1 ≤ c.toNat && c.toNat ≤ r.2

def isCased (c : Char) : Bool := inRanges casedRanges c

def isCaseIgnorable (c : Char) : Bool := inRanges caseIgnorableRanges c

def lowerChar (c : Char) : Char :=
  if c.toNat < 0x80 then c.toLower
  else match lowercaseRuns.find? fun (first, last, step, _) =>
      first ≤ c.toNat && c.toNat ≤ last && (c.toNat - first) % step == 0 with
    | some (_, _, _, shift) => Char.ofNat (c.toNat + shift).toNat
    | none => c

def facesCased (t : Text) : Bool :=
  ((t.dropWhile isCaseIgnorable).head?.map isCased).getD false

def lowerFrom : Text → Text → Text
  | _, [] => []
  | before, c :: rest =>
    let here :=
      if c = 'Σ' then (if facesCased before && !facesCased rest then ['ς'] else ['σ'])
      else if c = 'İ' then ['i', '\u0307']
      else [lowerChar c]
    here ++ lowerFrom (c :: before) rest

def lower (t : Text) : Text := lowerFrom [] t

end Conditions.Text
