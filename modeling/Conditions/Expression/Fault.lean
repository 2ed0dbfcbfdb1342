import Conditions.Expression.Token

/-!
# Faults

Why a source is no condition. A fault has a cause, the index of the token at which it was seen and
the source, so that it can be shown with a caret below the offending place.
-/

set_option autoImplicit false

namespace Conditions.Expression

inductive Cause where
  | missing
  | unterminated (mark : Char)
  | empty
  | expected (what : String) (found : Option Text)
  | unknownOperator (symbol : Text)
  | tooDeep
  | trailing (text : Text)
  deriving DecidableEq, Repr

def maxDepth : Nat := 50

def Cause.isLexical : Cause → Bool
  | .missing | .unterminated _ => true
  | _ => false

def Cause.message : Cause → String
  | .missing => "Expression is missing"
  | .unterminated mark => s!"Unterminated string starting with {mark}"
  | .empty => "Empty expression"
  | .expected what none => s!"Expected {what}, got end of expression"
  | .expected what (some found) => s!"Expected {what}, got '{String.ofList found}'"
  | .unknownOperator symbol => s!"Unknown operator: '{String.ofList symbol}'"
  | .tooDeep => s!"Expression nesting exceeds maximum depth of {maxDepth}"
  | .trailing text => s!"Unexpected trailing content '{String.ofList text}' after expression"

structure Fault where
  cause : Cause
  source : Text
  position : Nat
  token : Text
  deriving DecidableEq, Repr

def Fault.message (f : Fault) : String := f.cause.message

def Fault.isLexical (f : Fault) : Bool := f.cause.isLexical

def Token.fault (t : Token) (source : Text) (cause : Cause) : Fault :=
  ⟨cause, source, t.position, t.text⟩

def Token.found (t : Token) : Option Text :=
  if t.kind = .eof then none else some t.text

def column (position : Int) : Int := position + 1

def pointAt (message : String) (source : Text) (position : Int) : String :=
  if source.isEmpty then message
  else
    let indent := String.ofList (List.replicate (column position - 1).toNat ' ')
    s!"{message}\n  {String.ofList source}\n  {indent}^"

def Fault.shown (f : Fault) : String := pointAt f.message f.source f.position

end Conditions.Expression
