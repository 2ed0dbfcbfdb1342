import Conditions.Expression.Formula
import Conditions.Number.Binary64
import Conditions.Text.Lowercase

/-!
# Comparing texts

What a comparator says of two texts. The ordering comparators hold of numbers only. The others hold
of truth values if one of the texts is a truth value, where they know nothing but equality, and of
the texts as they are otherwise.
-/

set_option autoImplicit false

namespace Conditions.Expression

def number? (t : Text) : Option Binary64 :=
  (Decimal.read? (Text.strip t)).map Binary64.ofDecimal

def Comparator.orders : Comparator → Binary64 → Binary64 → Bool
  | .greater, x, y => y.lt x
  | .greaterEq, x, y => y.le x
  | .less, x, y => x.lt y
  | .lessEq, x, y => x.le y
  | _, _, _ => false

def isTrue (t : Text) : Bool := Text.lower (Text.strip t) == ['t', 'r', 'u', 'e']

def isFalse (t : Text) : Bool := Text.lower (Text.strip t) == ['f', 'a', 'l', 's', 'e']

def isTruthValue (t : Text) : Bool := isTrue t || isFalse t

def Comparator.relates : Comparator → Bool → Bool → Bool
  | .equal, a, b => a == b
  | .unequal, a, b => a != b
  | _, _, _ => false

def Comparator.matches : Comparator → Text → Text → Bool
  | .equal, l, r => l == r
  | .unequal, l, r => l != r
  | .contains, l, r => Text.holds r l
  | .lacks, l, r => !Text.holds r l
  | .within, l, r => Text.holds l r
  | .outside, l, r => !Text.holds l r
  | _, _, _ => false

def compare (l r : Text) (c : Comparator) : Bool :=
  if c.isOrdering then
    match number? l, number? r with
    | some x, some y => c.orders x y
    | _, _ => false
  else if isTruthValue l || isTruthValue r then c.relates (isTrue l) (isTrue r)
  else c.matches l r

end Conditions.Expression
