import Conditions.Number.Integer
import Conditions.Settings.Setting
import Conditions.Text.Lowercase

/-!
# Settings from the environment

Variables are read as text, whole numbers, truth values and paths. A missing variable gives the
default, and so does, with a warning, one that should be a number and is none.
-/

set_option autoImplicit false

namespace Conditions.Settings
open Files (Path Homes HomeFault)
open Journal (Entry)

structure Environment where
  entries : Dictionary String String
  homes : Homes

namespace Environment

def text? (e : Environment) (name : String) : Option String := e.entries.find? name

def notInteger (name value : String) : Entry :=
  ⟨.warning, "condexpr.config.env", s!"Invalid integer value for {name}: {value}"⟩

def int? (e : Environment) (name : String) : Option Int × List Entry :=
  match e.text? name with
  | none => (none, [])
  | some value =>
    match Number.readInteger 10 value.toList with
    | .ok n => (some n, [])
    | .error _ => (none, [notInteger name value])

def yes : List String := ["true", "1", "yes", "on"]

def bool? (e : Environment) (name : String) : Option Bool :=
  (e.text? name).map fun value => yes.contains (String.ofList (Text.lower value.toList))

def path? (e : Environment) (name : String) : Except HomeFault (Option Path) :=
  match e.text? name with
  | none => .ok none
  | some value => ((Path.read value).expandHome e.homes).map some

end Environment

end Conditions.Settings
