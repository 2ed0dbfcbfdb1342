import Conditions.Command.Request
import Conditions.Text.Lowercase

/-!
# Options

Words of a command line are options, values of options, and arguments. A word that starts with a
dash and goes on is an option. Its value follows behind an equals sign or is the next word, whatever
that looks like. Two dashes end the options. Where options and arguments must not be mixed, the
first argument ends them too.
-/

set_option autoImplicit false

namespace Conditions.Command

structure OptionForm where
  name : String
  takesValue : Bool
  deriving DecidableEq, Repr

structure Given where
  name : String
  value : Option String
  deriving DecidableEq, Repr

structure Words where
  options : List Given
  arguments : List String
  deriving DecidableEq, Repr

namespace Words

def isOption (word : String) : Bool :=
  match word.toList with
  | '-' :: _ :: _ => true
  | _ => false

def splitOption (word : String) : String × Option String :=
  match Text.splitAt? '=' word.toList with
  | some (name, value) => (String.ofList name, some (String.ofList value))
  | none => (word, none)

def addOption (o : Given) (w : Words) : Words := { w with options := o :: w.options }

def addArgument (word : String) (w : Words) : Words := { w with arguments := word :: w.arguments }

def read (forms : List OptionForm) (mixed : Bool) : List String → Except UsageFault Words
  | [] => .ok ⟨[], []⟩
  | word :: rest =>
    if word == "--" then .ok ⟨[], rest⟩
    else if isOption word then
      let (name, value) := splitOption word
      match forms.find? (·.name == name), value, rest with
      | some ⟨_, true⟩, some value, rest =>
        (read forms mixed rest).map (addOption ⟨name, some value⟩)
      | some ⟨_, true⟩, none, value :: rest =>
        (read forms mixed rest).map (addOption ⟨name, some value⟩)
      | some ⟨_, false⟩, none, rest => (read forms mixed rest).map (addOption ⟨name, none⟩)
      | _, _, _ => .error .misused
    else if mixed then (read forms mixed rest).map (addArgument word)
    else .ok ⟨[], word :: rest⟩

def values (w : Words) (name : String) : List String :=
  (w.options.filter (·.name == name)).filterMap Given.value

def value? (w : Words) (name : String) : Option String := (w.values name).getLast?

def has (w : Words) (name : String) : Bool := w.options.any (·.name == name)

end Words

def foldCase (s : String) : Text := Text.lower (s.toList.map fun c => if c = 'ſ' then 's' else c)

def choose {α : Type} (choices : List (String × α)) (word : String) : Except UsageFault α :=
  match choices.find? fun e => e.1.toList == foldCase word with
  | some e => .ok e.2
  | none => .error .misused

end Conditions.Command
