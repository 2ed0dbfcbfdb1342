import Conditions.Dictionary
import Conditions.Number.Binary64

/-!
# TOML values

A document is a table. Tables are built along paths of keys: a path leads through tables and
through the last table of an array of tables, and makes the tables that are missing.
-/

set_option autoImplicit false

namespace Conditions.Toml

inductive Moment where
  | date
  | dateTime
  | time
  deriving DecidableEq, Repr, Inhabited

inductive Value where
  | string (s : String)
  | int (n : Int)
  | float (x : Binary64)
  | bool (b : Bool)
  | moment (m : Moment)
  | array (elements : List Value)
  | table (members : List (String × Value))
  deriving Repr, Inhabited

abbrev Table := Dictionary String Value

def Value.isNested : Value → Bool
  | .array _ | .table _ => true
  | _ => false

/-- Changes the table at the end of a path. It fails where the path meets another value. Arrays
are passed through only if `throughArrays` is set. -/
def Table.change? (throughArrays : Bool) (f : Table → Option Table) :
    List String → Table → Option Table
  | [], t => f t
  | key :: path, t =>
    match Dictionary.find? t key with
    | none => (change? throughArrays f path []).map fun u => Dictionary.insert t key (.table u)
    | some (.table u) =>
      (change? throughArrays f path u).map fun u => Dictionary.insert t key (.table u)
    | some (.array elements) =>
      match throughArrays, elements.getLast? with
      | true, some (.table u) =>
        (change? throughArrays f path u).map fun u =>
          Dictionary.insert t key (.array (elements.dropLast ++ [.table u]))
      | _, _ => none
    | some _ => none

def Table.add? (key : String) (v : Value) (t : Table) : Option Table :=
  if Dictionary.has t key then none else some (Dictionary.insert t key v)

def Table.append? (key : String) (t : Table) : Option Table :=
  match Dictionary.find? t key with
  | none => some (Dictionary.insert t key (.array [.table []]))
  | some (.array elements) => some (Dictionary.insert t key (.array (elements ++ [.table []])))
  | some _ => none

end Conditions.Toml
