import Conditions.Evaluator.Cache
import Conditions.Evaluator.Session

/-!
# States of an evaluator

An evaluator compiles lines, evaluates them for callers, and does so at once or on a worker. A
worker runs a task as soon as it gets it, or queues it until somebody runs it; the evaluator's own
worker is a queue that closes with it. The result of a task is handed to a dispatcher, which
delivers it at once, or queues the delivery, or takes nothing any more.

A future stands for a result to come. A chain of lines submits a line only when the one before has
turned out true; it waits for the future of that line, and its own future is the outer one. A
cancelled future is notified when its result comes after all. The history tells what happened to
which future, and no operation looks at it.
-/

set_option autoImplicit false

namespace Conditions.Evaluator
open Expression

inductive WorkerKind where
  | immediate
  | queued
  | owned
  deriving DecidableEq, Repr, Inhabited

inductive Dispatch where
  | immediate
  | queued
  | dead
  deriving DecidableEq, Repr, Inhabited

structure Caller (κ : Type) where
  value : κ
  label : Option Text

inductive Status where
  | pending
  | cancelled
  | finished (result : Bool)
  deriving DecidableEq, Repr, Inhabited

structure Chain (κ : Type) where
  caller : Caller κ
  line : Line
  number : Nat
  rest : List Line
  outer : Nat

structure Future (κ : Type) where
  status : Status
  notified : Bool
  /-- The future of the chain, if this one stands for a line of it. -/
  outer : Option Nat
  waiting : Option (Chain κ)

structure Task (κ : Type) where
  caller : Caller κ
  line : Line
  future : Nat

structure Delivery where
  future : Nat
  result : Bool
  deriving DecidableEq, Repr

inductive Act (κ : Type) where
  | submitted (line : Line)
  | refused (line : Line) (refusal : Refusal)
  | evaluated (caller : Caller κ) (line : Line) (outcome : Except Failure Bool)
      (asked : List (κ × Text))
  | settled (result : Bool)
  | dropped
  | unexpected

/-- What happened to a future, and the future that the caller got for it: the outer one for a line
of a chain. -/
structure Event (κ : Type) where
  future : Nat
  owner : Nat
  act : Act κ

structure Setup (κ σ : Type) where
  resolver : Placeholder.Resolver κ σ
  worker : WorkerKind
  dispatch : Dispatch
  cacheSize : Int

structure State (κ σ : Type) where
  session : Session κ σ
  cache : Cache
  futures : List (Future κ)
  tasks : List (Task κ)
  deliveries : List Delivery
  closed : Bool
  refusing : Bool
  history : List (Event κ)

namespace State

variable {κ σ : Type}

def start (u : Setup κ σ) (state : σ) : State κ σ :=
  { session := (Session.start state).say (.created u.cacheSize (u.worker == .owned))
    cache := .empty u.cacheSize.toNat
    futures := []
    tasks := []
    deliveries := []
    closed := false
    refusing := false
    history := [] }

def say (s : State κ σ) (n : Note) : State κ σ := { s with session := s.session.say n }

def status (s : State κ σ) (future : Nat) : Status :=
  match s.futures[future]? with
  | some f => f.status
  | none => .pending

def notified (s : State κ σ) (future : Nat) : Bool :=
  ((s.futures[future]?).map Future.notified).getD false

def waiting (s : State κ σ) (future : Nat) : Option (Chain κ) :=
  (s.futures[future]?).bind Future.waiting

def owner (s : State κ σ) (future : Nat) : Nat :=
  ((s.futures[future]?).bind Future.outer).getD future

def tell (s : State κ σ) (future : Nat) (act : Act κ) : State κ σ :=
  { s with history := s.history ++ [⟨future, s.owner future, act⟩] }

def allot (s : State κ σ) (outer : Option Nat) : Nat × State κ σ :=
  (s.futures.length, { s with futures := s.futures ++ [⟨.pending, false, outer, none⟩] })

def revise (s : State κ σ) (future : Nat) (change : Future κ → Future κ) : State κ σ :=
  { s with futures := s.futures.modify future change }

def setStatus (s : State κ σ) (future : Nat) (status : Status) : State κ σ :=
  s.revise future fun f => { f with status }

def notify (s : State κ σ) (future : Nat) : State κ σ :=
  s.revise future fun f => { f with notified := true }

/-- A pending future gets its result, and a cancelled one learns that it came. A future that has
had a result, or learnt of one, expects no other. -/
def settle (s : State κ σ) (future : Nat) (result : Bool) : State κ σ :=
  match s.status future with
  | .pending => (s.setStatus future (.finished result)).tell future (.settled result)
  | .cancelled =>
    if s.notified future then s.tell future .unexpected
    else (s.notify future).tell future .dropped
  | .finished _ => s.tell future .unexpected

def cancel (s : State κ σ) (future : Nat) : State κ σ :=
  if s.status future = .pending then s.setStatus future .cancelled else s

def await (s : State κ σ) (future : Nat) (chain : Chain κ) : State κ σ :=
  s.revise future fun f => { f with waiting := some chain }

end State

end Conditions.Evaluator
