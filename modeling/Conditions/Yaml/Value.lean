import Conditions.Number.Binary64
import Conditions.Text.Basic
import Conditions.Yaml.Moment

/-!
# YAML values

A value is a scalar, or a collection that is known by its number. The parts of a collection are
values, so a collection may be a part of many others, and even of itself.
-/

set_option autoImplicit false

namespace Conditions.Yaml

inductive Value where
  | null
  | bool (b : Bool)
  | int (n : Int)
  | float (x : Binary64)
  | notNumber (node : Option Nat)
  | string (t : Text)
  | bytes (bs : List Nat)
  | moment (m : Moment)
  | collection (number : Nat)
  deriving Repr, Inhabited

inductive Collection where
  | sequence (elements : List Value)
  | mapping (entries : List (Value × Value))
  | pairs (entries : List (Value × Value))
  | set (elements : List Value)
  deriving Repr, Inhabited

def Collection.isEmpty : Collection → Bool
  | .sequence elements | .set elements => elements.isEmpty
  | .mapping entries | .pairs entries => entries.isEmpty

namespace Value

def isKey : Value → Bool
  | .collection _ => false
  | _ => true

def number? : Value → Option (Int ⊕ Binary64)
  | .bool b => some (.inl (if b then 1 else 0))
  | .int n => some (.inl n)
  | .float x => some (.inr x)
  | _ => none

def isWhole (x : Binary64) (n : Int) : Bool :=
  let (num, den) := Binary64.ratio x.code
  x.code < Binary64.infinityCode && (if x.negative then -(num : Int) else num) == n * den

def sameNumber : Int ⊕ Binary64 → Int ⊕ Binary64 → Bool
  | .inl n, .inl m => n == m
  | .inl n, .inr x => isWhole x n
  | .inr x, .inl n => isWhole x n
  | .inr x, .inr y => x.rank == y.rank

/-- Whether two keys are the same: numbers are the same when they are equal, of whatever type, and
what is no number is the same as itself. -/
def sameKey (a b : Value) : Bool :=
  match a, b with
  | .null, .null => true
  | .string s, .string t => s == t
  | .bytes s, .bytes t => s == t
  | .moment m, .moment n => m.same n
  | .notNumber i, .notNumber j => i == j
  | a, b =>
    match a.number?, b.number? with
    | some x, some y => sameNumber x y
    | _, _ => false

def insert (key value : Value) : List (Value × Value) → List (Value × Value)
  | [] => [(key, value)]
  | (k, v) :: rest => if k.sameKey key then (k, value) :: rest else (k, v) :: insert key value rest

def get? (entries : List (Value × Value)) (key : String) : Option Value :=
  (entries.find? fun e => e.1.sameKey (.string key.toList)).map (·.2)

end Value

end Conditions.Yaml
