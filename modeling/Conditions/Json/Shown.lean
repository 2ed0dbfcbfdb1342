import Conditions.Json.Writer

/-!
# Values as messages show them

A text stands as it is, but in quotes inside a list or a mapping. The other values have one form
everywhere.
-/

set_option autoImplicit false

namespace Conditions.Json

mutual

def form (quote : Text → Text) : Json → Text
  | .null => "None".toList
  | .bool b => (if b then "True" else "False").toList
  | .int n => Number.intText n
  | .float x => Number.plain.text x
  | .string s => quote s.toList
  | .array elements => enclose .line '[' ']' (formElements quote elements)
  | .object members => enclose .line '\x7b' '\x7d' (formMembers quote members)

def formElements (quote : Text → Text) : List Json → List Text
  | [] => []
  | j :: rest => form quote j :: formElements quote rest

def formMembers (quote : Text → Text) : List (String × Json) → List Text
  | [] => []
  | (key, j) :: rest =>
    (quote key.toList ++ ':' :: ' ' :: form quote j) :: formMembers quote rest

end

def quotedWith (quote : Text → Text) (j : Json) : Except WriteFault Text := written j (form quote j)

def quoted (j : Json) : Except WriteFault Text := quotedWith Text.quoted j

def shown (j : Json) : Except WriteFault Text :=
  match j with
  | .string s => .ok s.toList
  | j => j.quoted

def kind : Json → String
  | .null => "NoneType"
  | .bool _ => "bool"
  | .int _ => "int"
  | .float _ => "float"
  | .string _ => "str"
  | .array _ => "list"
  | .object _ => "dict"

def isTelling : Json → Bool
  | .null => false
  | .bool b => b
  | .int n => n != 0
  | .float x => x.code != 0
  | .string s => s != ""
  | .array elements => !elements.isEmpty
  | .object members => !members.isEmpty

end Conditions.Json
