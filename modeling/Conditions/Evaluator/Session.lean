import Conditions.Expression.Compare
import Conditions.Expression.Fault
import Conditions.Placeholder.Resolver
import Conditions.Text.Quoted

/-!
# Sessions

A session is what a run of conditions leaves behind: the state of the resolver, the questions put
to it, the journal, and the context in which the next entry would be said. What is said is kept as
a note, so that it can be told what happened without reading messages.
-/

set_option autoImplicit false

namespace Conditions.Evaluator
open Expression Journal Placeholder

inductive Failure where
  | malformed (fault : Fault)
  | raised (message : String)
  | unknownNode (kind : String)
  deriving DecidableEq, Repr

def Failure.message : Failure → String
  | .malformed fault => fault.message
  | .raised message => message
  | .unknownNode kind => s!"Unknown expression node: {kind}"

inductive Refusal where
  | closed
  | shutDown
  deriving DecidableEq, Repr

def Refusal.message : Refusal → String
  | .closed => "ConditionEvaluator is closed"
  | .shutDown => "cannot schedule new futures after shutdown"

abbrev Line := Option Text

def quotedLine (line : Line) : String :=
  match line with
  | some t => String.ofList (Text.quoted t)
  | none => "None"

def bareLine (line : Line) : String :=
  match line with
  | some t => String.ofList t
  | none => "None"

def truth (b : Bool) : String := if b then "True" else "False"

inductive Note where
  | created (cacheSize : Int) (ownsWorker : Bool)
  | resolver (entry : Entry)
  | evaluated (line : Line) (result : Bool)
  | notMet (line : Line)
  | unparsed (line : Line) (fault : Fault)
  | failed (line : Line) (failure : Failure)
  | unscheduled (line : Line) (refusal : Refusal)
  | undispatched
  | chainCancelled (number : Nat)
  | chainFailed (line : Line)
  deriving DecidableEq, Repr

def logger : String := "condexpr.engine"

def Note.entry : Note → Entry
  | .created cacheSize ownsWorker =>
    ⟨.debug, logger,
      s!"ConditionEvaluator initialized (cache_size={cacheSize}, own_executor={truth ownsWorker})"⟩
  | .resolver entry => entry
  | .evaluated line result =>
    ⟨.debug, logger, s!"Expression {quotedLine line} evaluated to {truth result}"⟩
  | .notMet line => ⟨.debug, logger, s!"Condition not met: {bareLine line}"⟩
  | .unparsed line fault =>
    ⟨.warning, logger, s!"Failed to parse condition {quotedLine line}: {fault.message}"⟩
  | .failed line failure =>
    ⟨.warning, logger, s!"Async evaluation of {quotedLine line} failed: {failure.message}"⟩
  | .unscheduled line refusal =>
    ⟨.warning, logger, s!"Cannot schedule evaluation of {quotedLine line}: {refusal.message}"⟩
  | .undispatched =>
    ⟨.warning, logger,
      "Dispatcher rejected completion, completing inline: Event loop is closed"⟩
  | .chainCancelled number =>
    ⟨.debug, logger, s!"Async condition check cancelled before line {number}"⟩
  | .chainFailed line => ⟨.debug, logger, s!"Async condition check failed at: {bareLine line}"⟩

structure Noted where
  note : Note
  context : Context
  deriving DecidableEq, Repr

def Noted.record (n : Noted) : Record := ⟨n.note.entry, n.context⟩

structure Session (κ σ : Type) where
  resolver : σ
  asked : List (κ × Text)
  journal : List Noted
  context : Context

namespace Session

variable {κ σ : Type}

def start (state : σ) : Session κ σ := ⟨state, [], [], .none⟩

def say (s : Session κ σ) (n : Note) : Session κ σ :=
  { s with journal := s.journal ++ [⟨n, s.context⟩] }

end Session

abbrev Evaluation (κ σ : Type) := ExceptT Failure (StateM (Session κ σ))

namespace Evaluation

variable {κ σ : Type}

def ask (r : Resolver κ σ) (caller : κ) (operand : Text) : Evaluation κ σ Text := do
  let s ← get
  let reply := r.resolve caller operand s.resolver
  set { s with
    resolver := reply.state
    asked := s.asked ++ [(caller, operand)]
    journal := s.journal ++ reply.entries.map fun e => (⟨.resolver e, s.context⟩ : Noted) }
  match reply.answer with
  | .ok t => pure t
  | .error message => throw (.raised message)

def comparison (r : Resolver κ σ) (caller : κ) (c : Comparison) : Evaluation κ σ Bool := do
  let left ← ask r caller c.left
  let right ← ask r caller c.right
  pure (compare left right c.comparator)

def condition (r : Resolver κ σ) (caller : κ) (c : Condition) : Evaluation κ σ Bool :=
  c.holds (comparison r caller)

end Evaluation

inductive Leaf where
  | comparison (c : Comparison)
  | foreign (kind : String)
  deriving DecidableEq, Repr, Inhabited

namespace Evaluation

variable {κ σ : Type}

def leaf (r : Resolver κ σ) (caller : κ) : Leaf → Evaluation κ σ Bool
  | .comparison c => comparison r caller c
  | .foreign kind => throw (.unknownNode kind)

end Evaluation

end Conditions.Evaluator
