import Conditions.Text.Basic

/-!
# Enclosed texts

A text is enclosed when its first and last characters are an opening and a closing delimiter that
belong together. Such a text is turned into a reference between percent signs.
-/

set_option autoImplicit false

namespace Conditions.Placeholder

def closesAtEnd (opening closing : Char) : Nat → Text → Bool
  | depth, [] => depth == 0
  | depth, c :: rest =>
    if c = opening then closesAtEnd opening closing (depth + 1) rest
    else if c = closing then
      match depth with
      | 0 => false
      | 1 => rest.isEmpty
      | deeper + 2 => closesAtEnd opening closing (deeper + 1) rest
    else closesAtEnd opening closing depth rest

def isEnclosed (opening closing : Char) (t : Text) : Bool :=
  t.head? == some opening && t.getLast? == some closing && closesAtEnd opening closing 0 t

/-- An enclosed text between percent signs instead; every other text as it is. Delimiters that are
not single characters enclose nothing. -/
def encloseInPercent (opening closing t : Text) : Text :=
  match opening, closing with
  | [o], [c] => if isEnclosed o c t then '%' :: (t.drop 1).dropLast ++ ['%'] else t
  | _, _ => t

end Conditions.Placeholder
