import Conditions.Json.Value
import Conditions.Number.Integer
import Conditions.Number.Shortest
import Conditions.Text.Quoted

/-!
# Writing JSON

Everything outside the printable characters of ASCII is escaped, beyond the basic plane as a pair
of surrogates, so a written value is one line of ASCII text. It is written either on one line or
with one member or element a line. A value with a whole number of too many digits is not written at
all.
-/

set_option autoImplicit false

namespace Conditions.Json
open Number (Layout)

def numberLayout : Layout := { Number.plain with nan := "NaN", infinity := "Infinity" }

def escapeUnit (n : Nat) : Text := '\\' :: 'u' :: Text.hex 4 n

def escapeChar (c : Char) : Text :=
  if c = '"' then ['\\', '"']
  else if c = '\\' then ['\\', '\\']
  else if c = '\n' then ['\\', 'n']
  else if c = '\r' then ['\\', 'r']
  else if c = '\t' then ['\\', 't']
  else if c = '\x08' then ['\\', 'b']
  else if c = '\x0c' then ['\\', 'f']
  else if 0x20 ≤ c.toNat && c.toNat ≤ 0x7e then [c]
  else if c.toNat < 0x10000 then escapeUnit c.toNat
  else
    let above := c.toNat - 0x10000
    escapeUnit (0xd800 + above / 0x400) ++ escapeUnit (0xdc00 + above % 0x400)

def writeString (s : String) : Text := '"' :: s.toList.flatMap escapeChar ++ ['"']

def join (separator : Text) : List Text → Text
  | [] => []
  | [t] => t
  | t :: rest => t ++ separator ++ join separator rest

inductive Style where
  | line
  | spread (indent : Nat)

def newline (indent : Nat) : Text := '\n' :: List.replicate indent ' '

def enclose (style : Style) (opening closing : Char) (parts : List Text) : Text :=
  if parts.isEmpty then [opening, closing]
  else match style with
    | .line => opening :: join [',', ' '] parts ++ [closing]
    | .spread indent =>
      opening :: newline (indent + 2) ++ join (',' :: newline (indent + 2)) parts ++
        newline indent ++ [closing]

def Style.inner : Style → Style
  | .line => .line
  | .spread indent => .spread (indent + 2)

mutual

def layout (style : Style) : Json → Text
  | .null => ['n', 'u', 'l', 'l']
  | .bool true => ['t', 'r', 'u', 'e']
  | .bool false => ['f', 'a', 'l', 's', 'e']
  | .int n => Number.intText n
  | .float x => numberLayout.text x
  | .string s => writeString s
  | .array elements => enclose style '[' ']' (layoutElements style.inner elements)
  | .object members => enclose style '\x7b' '\x7d' (layoutMembers style.inner members)

def layoutElements (style : Style) : List Json → List Text
  | [] => []
  | j :: rest => layout style j :: layoutElements style rest

def layoutMembers (style : Style) : List (String × Json) → List Text
  | [] => []
  | (key, j) :: rest =>
    (writeString key ++ ':' :: ' ' :: layout style j) :: layoutMembers style rest

end

mutual

def isWritable : Json → Bool
  | .int n => Number.isShort n
  | .array elements => areWritable elements
  | .object members => haveWritable members
  | _ => true

def areWritable : List Json → Bool
  | [] => true
  | j :: rest => isWritable j && areWritable rest

def haveWritable : List (String × Json) → Bool
  | [] => true
  | (_, j) :: rest => isWritable j && haveWritable rest

end

theorem haveWritable_eq_all (members : List (String × Json)) :
    haveWritable members = members.all fun m => m.2.isWritable := by
  induction members with
  | nil => rfl
  | cons m rest ih => rw [haveWritable, ih, List.all_cons]

inductive WriteFault where
  | tooLong
  deriving DecidableEq, Repr

def WriteFault.message : WriteFault → String
  | .tooLong => Number.textLimit

def written (j : Json) (t : Text) : Except WriteFault Text :=
  if j.isWritable then .ok t else .error .tooLong

def write (style : Style) (j : Json) : Except WriteFault Text := written j (layout style j)

def line (j : Json) : Except WriteFault String := (write .line j).map String.ofList

def pretty (j : Json) : Except WriteFault String := (write (.spread 0) j).map String.ofList

end Conditions.Json
