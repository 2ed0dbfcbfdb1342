import Conditions.Text.Basic

/-!
# Entries of the journal

What is said in the log: how grave it is, which part of the library says it, and the message. An
evaluation in progress is the context of everything said during it; a short tag shows it.
-/

set_option autoImplicit false

namespace Conditions.Journal

inductive Level where
  | debug
  | info
  | warning
  | error
  | critical
  deriving DecidableEq, Repr, Inhabited

namespace Level

def name : Level → String
  | .debug => "DEBUG"
  | .info => "INFO"
  | .warning => "WARNING"
  | .error => "ERROR"
  | .critical => "CRITICAL"

def rank : Level → Nat
  | .debug => 10
  | .info => 20
  | .warning => 30
  | .error => 40
  | .critical => 50

def all : List Level := [.debug, .info, .warning, .error, .critical]

def ofName? (name : String) : Option Level := all.find? fun l => l.name == name

end Level

structure Entry where
  level : Level
  logger : String
  message : String
  deriving DecidableEq, Repr, Inhabited

structure Context where
  expression : Option Text
  caller : Option Text
  deriving DecidableEq, Repr, Inhabited

namespace Context

def none : Context := ⟨.none, .none⟩

def shownLength : Nat := 60

def shorten (expression : Text) : Text :=
  if shownLength < expression.length then
    expression.take (shownLength - 3) ++ ['.', '.', '.']
  else expression

def tag (c : Context) : Text :=
  match c.expression, c.caller with
  | .none, _ => []
  | some e, some (l :: label) => '[' :: l :: label ++ ':' :: ' ' :: shorten e ++ [']', ' ']
  | some e, _ => '[' :: shorten e ++ [']', ' ']

end Context

structure Record where
  entry : Entry
  context : Context
  deriving DecidableEq, Repr, Inhabited

end Conditions.Journal
