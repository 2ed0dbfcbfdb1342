import Conditions.Dictionary
import Conditions.Text.Lowercase

/-!
# Registries of handlers

A handler gives the text for a reference, from the caller and the raw arguments of the reference.
It may remember something between calls and it may fail with a message. Keys are the same when
their lower-case forms are. A reference is looked up by its full name first; failing that, its name
is cut at the first underscore into a key and raw arguments.
-/

set_option autoImplicit false

namespace Conditions.Placeholder

abbrev Action (σ : Type) := ExceptT String (StateM σ)

abbrev Handler (κ σ : Type) := κ → Text → Action σ Text

def Handler.fixed {κ σ : Type} (t : Text) : Handler κ σ := fun _ _ => pure t

abbrev Registry (κ σ : Type) := Dictionary Text (Handler κ σ)

namespace Registry

variable {κ σ : Type}

def register (r : Registry κ σ) (key : Text) (h : Handler κ σ) : Registry κ σ :=
  Dictionary.insert r (Text.lower key) h

def unregister (r : Registry κ σ) (key : Text) : Registry κ σ :=
  Dictionary.erase r (Text.lower key)

def ofList (entries : List (Text × Handler κ σ)) : Registry κ σ :=
  entries.foldl (fun r e => register r e.1 e.2) []

def insertSorted (key : Text) : List Text → List Text
  | [] => [key]
  | k :: rest => if Text.precedes key k then key :: k :: rest else k :: insertSorted key rest

def keys (r : Registry κ σ) : List Text :=
  (Dictionary.keys r).foldr insertSorted []

def find? (r : Registry κ σ) (name : Text) : Option (Handler κ σ × Text) :=
  match Dictionary.find? r (Text.lower name) with
  | some h => some (h, [])
  | none => do
    let (key, raw) ← Text.splitAt? '_' name
    let h ← Dictionary.find? r (Text.lower key)
    pure (h, raw)

end Registry

def splitArgs (raw : Text) : List Text :=
  if raw.isEmpty then [] else Text.pieces '_' raw

end Conditions.Placeholder
