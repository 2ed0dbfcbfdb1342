import Conditions.Journal.Entry

/-!
# Scopes

The context is set and cleared, and scopes are entered and left. Leaving a scope puts back the
context from before it was entered, whatever was done inside and however it is left.
-/

set_option autoImplicit false

namespace Conditions.Journal

structure Scopes where
  current : Context
  saved : List Context
  deriving DecidableEq, Repr, Inhabited

inductive ScopeStep where
  | set (c : Context)
  | clear
  | enter (c : Context)
  | leave (raising : Bool)
  deriving DecidableEq, Repr

namespace Scopes

def none : Scopes := ⟨.none, []⟩

/-- The way out of a scope: what was done inside has ended, with an error or without. In either case
the context from before is put back, and an error goes on. -/
def wayOut {ε : Type} (outside : Context) (ending : Except ε Unit) :
    ExceptT ε (StateM Context) Unit := do
  try ofExcept ending finally set outside

theorem run_wayOut {ε : Type} (outside : Context) (ending : Except ε Unit) (c : Context) :
    (wayOut outside ending).run.run c = (ending, outside) := by
  cases ending <;> rfl

def step (s : Scopes) : ScopeStep → Scopes
  | .set c => { s with current := c }
  | .clear => { s with current := .none }
  | .enter c => ⟨c, s.current :: s.saved⟩
  | .leave raising =>
    match s.saved with
    | [] => s
    | outside :: saved =>
      let ending : Except Unit Unit := if raising then .error () else .ok ()
      ⟨((wayOut outside ending).run.run s.current).2, saved⟩

end Scopes

end Conditions.Journal
