import Conditions.Journal.Entry
import Conditions.Placeholder.Expand

/-!
# Resolvers

A resolver replaces what it knows in the operands of a comparison. It is asked with the caller and
a text; it has a state of its own, may fail with a message, and may say something to the journal.
-/

set_option autoImplicit false

namespace Conditions.Placeholder
open Journal (Entry)

structure Reply (σ : Type) where
  answer : Except String Text
  entries : List Entry
  state : σ

structure Resolver (κ σ : Type) where
  resolve : κ → Text → σ → Reply σ

variable {κ σ : Type}

def Resolver.verbatim : Resolver κ σ := ⟨fun _ t s => ⟨.ok t, [], s⟩⟩

def unsettled (t : Text) : Entry :=
  ⟨.warning, "condexpr.resolvers",
    s!"Placeholder expansion did not converge after {maxPasses} passes: {String.ofList t}"⟩

def Registry.reply (r : Registry κ σ) (custom : Dictionary Text Text) (caller : κ) (t : Text)
    (s : σ) : Reply σ :=
  match (expand r caller t custom).run.run s with
  | (.ok e, s') => ⟨.ok e.text, if e.settled then [] else [unsettled e.text], s'⟩
  | (.error message, s') => ⟨.error message, [], s'⟩

def Registry.resolver (r : Registry κ σ) : Resolver κ σ := ⟨r.reply []⟩

end Conditions.Placeholder
