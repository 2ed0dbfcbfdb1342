import Conditions.Placeholder.Reference
import Conditions.Placeholder.Registry

/-!
# Expansion

A pass replaces the references in braces and then those in percent signs, each from left to right;
a reference that nobody answers for stays. Passes are repeated until the text no longer changes or
holds no delimiter, ten times at most. Custom values are put in before the first pass.
-/

set_option autoImplicit false

namespace Conditions.Placeholder

variable {κ σ : Type}

def replacePiece (r : Registry κ σ) (s : Style) (caller : κ) (p : Piece) : Action σ Text :=
  match p with
  | .plain c => pure [c]
  | .reference name =>
    match r.find? name with
    | some (h, raw) => h caller raw
    | none => pure (s.verbatim p)

def replacePieces (r : Registry κ σ) (s : Style) (caller : κ) : List Piece → Action σ Text
  | [] => pure []
  | p :: rest => do
    let front ← replacePiece r s caller p
    let back ← replacePieces r s caller rest
    pure (front ++ back)

def substitute (r : Registry κ σ) (s : Style) (caller : κ) (t : Text) : Action σ Text :=
  replacePieces r s caller (s.cut t)

def pass (r : Registry κ σ) (caller : κ) (t : Text) : Action σ Text := do
  substitute r percent caller (← substitute r brace caller t)

def maxPasses : Nat := 10

structure Expansion where
  text : Text
  settled : Bool
  deriving DecidableEq, Repr

def isClosed (t : Text) : Bool := !t.contains '%' && !t.contains '\x7b'

def repeatPass (r : Registry κ σ) (caller : κ) : Nat → Text → Action σ Expansion
  | 0, t => pure ⟨t, false⟩
  | left + 1, t => do
    let expanded ← pass r caller t
    if expanded = t || isClosed expanded then pure ⟨expanded, true⟩
    else repeatPass r caller left expanded

def applyCustom (custom : Dictionary Text Text) (t : Text) : Text :=
  custom.foldl (fun acc e => Text.replace (brace.opening :: e.1 ++ [brace.closing]) e.2 acc) t

def expand (r : Registry κ σ) (caller : κ) (t : Text) (custom : Dictionary Text Text) :
    Action σ Expansion :=
  repeatPass r caller maxPasses (applyCustom custom t)

end Conditions.Placeholder
