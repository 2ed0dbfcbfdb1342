import Conditions.Text.Basic

/-!
# Formulas and conditions

A formula joins atoms by "and" and "or". The atoms of a condition compare two operands. Whether a
formula holds is asked from left to right, and a right side is left out when the left one decides.
-/

set_option autoImplicit false

namespace Conditions.Expression

inductive Formula (α : Type) where
  | atom (a : α)
  | and (left right : Formula α)
  | or (left right : Formula α)
  deriving DecidableEq, Repr, Inhabited

def Formula.holds {α : Type} {m : Type → Type} [Monad m] (ask : α → m Bool) : Formula α → m Bool
  | .atom a => ask a
  | .and left right => do
    if ← left.holds ask then right.holds ask else pure false
  | .or left right => do
    if ← left.holds ask then pure true else right.holds ask

inductive Comparator where
  | greater
  | greaterEq
  | less
  | lessEq
  | equal
  | unequal
  | contains
  | lacks
  | within
  | outside
  deriving DecidableEq, Repr, Inhabited

namespace Comparator

def all : List Comparator :=
  [.greater, .greaterEq, .less, .lessEq, .equal, .unequal, .contains, .lacks, .within, .outside]

def symbol : Comparator → Text
  | .greater => ['>']
  | .greaterEq => ['>', '=']
  | .less => ['<']
  | .lessEq => ['<', '=']
  | .equal => ['=', '=']
  | .unequal => ['!', '=']
  | .contains => ['>', '>']
  | .lacks => ['!', '>', '>']
  | .within => ['<', '<']
  | .outside => ['!', '<', '<']

def ofSymbol? (t : Text) : Option Comparator := all.find? fun c => c.symbol == t

def isOrdering : Comparator → Bool
  | .greater | .greaterEq | .less | .lessEq => true
  | _ => false

theorem ofSymbol?_symbol (c : Comparator) : ofSymbol? c.symbol = some c := by
  cases c <;> decide

theorem symbol_of_ofSymbol? {t : Text} {c : Comparator} (h : ofSymbol? t = some c) :
    c.symbol = t := by
  simpa using List.find?_some h

end Comparator

structure Comparison where
  left : Text
  comparator : Comparator
  right : Text
  deriving DecidableEq, Repr, Inhabited

abbrev Condition := Formula Comparison

end Conditions.Expression
