import Conditions.Expression.Token

/-!
# Literals

The text that a literal stands for: what is between its quotes, if one pair of quotes encloses all
of it, and the literal as it is written otherwise.
-/

set_option autoImplicit false

namespace Conditions.Expression

/-- The text of a run that ends with its closing quote `mark`, each backslash replaced by the
character behind it. A backslash right before the last character stands for itself. `none` if the
run closes before its end or does not end with `mark`. -/
def unescape? (mark : Char) : Text → Option Text
  | [] => none
  | [c] => if c = mark then some [] else none
  | '\\' :: c :: d :: rest => (unescape? mark (d :: rest)).map (c :: ·)
  | c :: d :: rest =>
    if c = mark then none else (unescape? mark (d :: rest)).map (c :: ·)

def unquote (literal : Text) : Text :=
  match literal with
  | [] => []
  | c :: rest => if isQuote c then (unescape? c rest).getD literal else literal

end Conditions.Expression
