import Conditions.Number.Binary64

/-!
# JSON values

Whole numbers and binary fractions are told apart, and the members of an object keep their order.
-/

set_option autoImplicit false

namespace Conditions

inductive Json where
  | null
  | bool (b : Bool)
  | int (n : Int)
  | float (x : Binary64)
  | string (s : String)
  | array (elements : List Json)
  | object (members : List (String × Json))
  deriving Repr, Inhabited

namespace Json

def get? (j : Json) (key : String) : Option Json :=
  match j with
  | .object members => members.lookup key
  | _ => none

def get (j : Json) (key : String) : Json := (j.get? key).getD .null

def string? : Json → Option String
  | .string s => some s
  | _ => none

def int? : Json → Option Int
  | .int n => some n
  | _ => none

def bool? : Json → Option Bool
  | .bool b => some b
  | _ => none

def elements : Json → List Json
  | .array elements => elements
  | _ => []

end Json

end Conditions
