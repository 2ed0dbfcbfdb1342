import Conditions.Evaluator.Blocking

/-!
# Evaluating on a worker

A submitted line always gets a result: a failure is noted and counts as false, and so does a line
that the worker refuses. Nobody waits yet for a future that has just been made, so its delivery
only settles it; the delivery of a later result also resumes the chain that waits for it, and so
does a cancellation. Here every operation runs to its end by itself; what may come between its
pieces when several threads are at work is told with the pieces.
-/

set_option autoImplicit false

namespace Conditions.Evaluator
open Expression

variable {κ σ : Type}

namespace State

def complete (u : Setup κ σ) (settle : State κ σ → Nat → Bool → State κ σ) (s : State κ σ)
    (future : Nat) (result : Bool) : State κ σ :=
  match u.dispatch with
  | .immediate => settle s future result
  | .queued => { s with deliveries := s.deliveries ++ [⟨future, result⟩] }
  | .dead => settle (s.say .undispatched) future result

def attempt (u : Setup κ σ) (s : State κ σ) (t : Task κ) : Except Failure Bool × State κ σ :=
  let (outcome, after) := s.evaluate u t.caller t.line
  let asked := after.session.asked.drop s.session.asked.length
  (outcome, after.tell t.future (.evaluated t.caller t.line outcome asked))

def perform (u : Setup κ σ) (settle : State κ σ → Nat → Bool → State κ σ) (s : State κ σ)
    (t : Task κ) : State κ σ :=
  if s.status t.future = .cancelled then s
  else match s.attempt u t with
    | (.ok result, s) => s.complete u settle t.future result
    | (.error failure, s) => (s.say (.failed t.line failure)).complete u settle t.future false

def refusal? (u : Setup κ σ) (s : State κ σ) : Option Refusal :=
  match u.worker with
  | .owned => if s.closed then some .closed else none
  | .queued => if s.refusing then some .shutDown else none
  | .immediate => none

def submit (u : Setup κ σ) (s : State κ σ) (t : Task κ) : State κ σ :=
  match s.refusal? u with
  | some refusal =>
    ((s.tell t.future (.refused t.line refusal)).say (.unscheduled t.line refusal)).complete u
      settle t.future false
  | none =>
    match u.worker with
    | .immediate => s.perform u settle t
    | .queued | .owned => { s with tasks := s.tasks ++ [t] }

def evaluateAsync (u : Setup κ σ) (s : State κ σ) (caller : Caller κ) (line : Line)
    (outer : Option Nat := none) : Nat × State κ σ :=
  let (future, s) := s.allot outer
  (future, (s.tell future (.submitted line)).submit u ⟨caller, line, future⟩)

def runLines (u : Setup κ σ) (s : State κ σ) (caller : Caller κ) (outer : Nat) :
    Nat → List Line → State κ σ
  | number, lines =>
    if s.status outer = .cancelled then s.say (.chainCancelled number)
    else match lines with
      | [] => s.settle outer true
      | line :: rest =>
        let (step, s) := s.evaluateAsync u caller line (some outer)
        match s.status step with
        | .pending => s.await step ⟨caller, line, number + 1, rest, outer⟩
        | .finished true => s.runLines u caller outer (number + 1) rest
        | .finished false => (s.say (.chainFailed line)).settle outer false
        | .cancelled => s.cancel outer

def resume (u : Setup κ σ) (s : State κ σ) (chain : Chain κ) : Status → State κ σ
  | .pending => s
  | .finished true => s.runLines u chain.caller chain.outer chain.number chain.rest
  | .finished false => (s.say (.chainFailed chain.line)).settle chain.outer false
  | .cancelled => s.cancel chain.outer

def deliver (u : Setup κ σ) (s : State κ σ) (future : Nat) (result : Bool) : State κ σ :=
  match s.status future, s.waiting future with
  | .pending, some chain => (s.settle future result).resume u chain (.finished result)
  | _, _ => s.settle future result

def withdraw (u : Setup κ σ) (s : State κ σ) (future : Nat) : State κ σ :=
  match s.status future, s.waiting future with
  | .pending, some chain => (s.cancel future).resume u chain .cancelled
  | _, _ => s.cancel future

def evaluateAllAsync (u : Setup κ σ) (s : State κ σ) (caller : Caller κ) (lines : List Line) :
    Nat × State κ σ :=
  let (outer, s) := s.allot none
  (outer, if lines.isEmpty then s.settle outer true else s.runLines u caller outer 1 lines)

def runTask (u : Setup κ σ) (s : State κ σ) (index : Nat) : Bool × State κ σ :=
  match s.tasks[index]? with
  | none => (false, s)
  | some t => (true, { s with tasks := s.tasks.eraseIdx index }.perform u (deliver u) t)

def runDelivery (u : Setup κ σ) (s : State κ σ) (index : Nat) : Bool × State κ σ :=
  match s.deliveries[index]? with
  | none => (false, s)
  | some d =>
    (true, { s with deliveries := s.deliveries.eraseIdx index }.deliver u d.future d.result)

def runTasks (u : Setup κ σ) (s : State κ σ) : Nat → State κ σ
  | 0 => s
  | count + 1 => (s.runTask u 0).2.runTasks u count

/-- Closes the evaluator's own worker, which first runs what it has queued; from then on it takes
nothing, so no task is added meanwhile. A worker from outside is left alone. -/
def close (u : Setup κ σ) (s : State κ σ) : State κ σ :=
  let s := { s with closed := true }
  if u.worker = .owned then s.runTasks u s.tasks.length else s

end State

end Conditions.Evaluator
