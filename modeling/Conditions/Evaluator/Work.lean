import Conditions.Evaluator.Step
import Mathlib.Logic.Relation

/-!
# Several threads

A run of steps brings each operation to its end before the next begins. Where several threads share
an evaluator, they do operations piece by piece; a hand is what a thread has left to do, and any of
them may be next. A piece asks for the status of one future at most, or changes that of one: to ask
whether a chain is cancelled and to submit its next line are two pieces, and so are to ask whether a
task is cancelled and to evaluate its line. Between any two pieces a returned future may be
cancelled, and another operation may begin.

The evaluation of a line is one piece; a chain learns no more of it than its outcome. A task goes
into the queue in one piece with the chain that waits for it, since a chain that comes to wait for a
future with a result goes on at once.
-/

set_option autoImplicit false

namespace Conditions.Evaluator
open Expression

variable {κ σ : Type}

/-- The chain, if there is one, goes on with the result of the future, or waits for it if it does
not come at once. -/
inductive Work (κ : Type) where
  | submit (t : Task κ) (chain : Option (Chain κ))
  | perform (t : Task κ) (chain : Option (Chain κ))
  | evaluate (t : Task κ) (chain : Option (Chain κ))
  | complete (future : Nat) (result : Bool) (chain : Option (Chain κ))
  | deliver (future : Nat) (result : Bool) (chain : Option (Chain κ))
  | resume (chain : Chain κ) (result : Bool)
  | lines (caller : Caller κ) (outer number : Nat) (lines : List Line)
  | put (caller : Caller κ) (outer number : Nat) (line : Line) (rest : List Line)

structure Moment (κ σ : Type) where
  state : State κ σ
  hands : List (Work κ)

def Moment.beside (m : Moment κ σ) (others : List (Work κ)) : Moment κ σ :=
  ⟨m.state, m.hands ++ others⟩

def State.park (s : State κ σ) (future : Nat) : Option (Chain κ) → State κ σ
  | some chain => s.await future chain
  | none => s

def Work.next (u : Setup κ σ) (s : State κ σ) : Work κ → Moment κ σ
  | .submit t chain =>
    match s.refusal? u with
    | some refusal =>
      ⟨(s.tell t.future (.refused t.line refusal)).say (.unscheduled t.line refusal),
        [.complete t.future false chain]⟩
    | none =>
      match u.worker with
      | .immediate => ⟨s, [.perform t chain]⟩
      | .queued | .owned => ⟨State.park { s with tasks := s.tasks ++ [t] } t.future chain, []⟩
  | .perform t chain => ⟨s, if s.status t.future = .cancelled then [] else [.evaluate t chain]⟩
  | .evaluate t chain =>
    match s.attempt u t with
    | (.ok result, s) => ⟨s, [.complete t.future result chain]⟩
    | (.error failure, s) => ⟨s.say (.failed t.line failure), [.complete t.future false chain]⟩
  | .complete future result chain =>
    match u.dispatch with
    | .immediate => ⟨s, [.deliver future result chain]⟩
    | .queued =>
      ⟨State.park { s with deliveries := s.deliveries ++ [⟨future, result⟩] } future chain, []⟩
    | .dead => ⟨s.say .undispatched, [.deliver future result chain]⟩
  | .deliver future result chain =>
    ⟨s.settle future result,
      if s.status future = .pending then (chain.map fun c => .resume c result).toList else []⟩
  | .resume chain true => ⟨s, [.lines chain.caller chain.outer chain.number chain.rest]⟩
  | .resume chain false => ⟨(s.say (.chainFailed chain.line)).settle chain.outer false, []⟩
  | .lines caller outer number todo =>
    if s.status outer = .cancelled then ⟨s.say (.chainCancelled number), []⟩
    else match todo with
      | [] => ⟨s.settle outer true, []⟩
      | line :: rest => ⟨s, [.put caller outer number line rest]⟩
  | .put caller outer number line rest =>
    ⟨(s.allot (some outer)).2.tell s.futures.length (.submitted line),
      [.submit ⟨caller, line, s.futures.length⟩ (some ⟨caller, line, number + 1, rest, outer⟩)]⟩

inductive Request (κ : Type) where
  | one (caller : Caller κ) (line : Line)
  | all (caller : Caller κ) (lines : List Line)

namespace Request

def caller : Request κ → Caller κ
  | .one caller _ => caller
  | .all caller _ => caller

def lines : Request κ → List Line
  | .one _ line => [line]
  | .all _ lines => lines

def step : Request κ → Step κ
  | .one caller line => .async caller line
  | .all caller lines => .allAsync caller lines

def opened (s : State κ σ) : Request κ → Moment κ σ
  | .one caller line =>
    ⟨(s.allot none).2.tell s.futures.length (.submitted line),
      [.submit ⟨caller, line, s.futures.length⟩ none]⟩
  | .all caller lines => ⟨(s.allot none).2, [.lines caller s.futures.length 1 lines]⟩

end Request

/-- The first hand is next; `turn` brings another one to the front. The future of a line of a chain
is known to the chain alone and is cancelled with no hand at work, as a step does it. -/
inductive Move (u : Setup κ σ) : Moment κ σ → Moment κ σ → Prop where
  | turn (s : State κ σ) {hands hands' : List (Work κ)} (h : hands.Perm hands') :
      Move u ⟨s, hands⟩ ⟨s, hands'⟩
  | work (s : State κ σ) (w : Work κ) (others : List (Work κ)) :
      Move u ⟨s, w :: others⟩ ((w.next u s).beside others)
  | compile (s : State κ σ) (others : List (Work κ)) (line : Line) :
      Move u ⟨s, others⟩ ⟨(s.compile line).2, others⟩
  | evaluate (s : State κ σ) (others : List (Work κ)) (caller : Caller κ) (line : Line) :
      Move u ⟨s, others⟩ ⟨(s.evaluate u caller line).2, others⟩
  | evaluateAll (s : State κ σ) (others : List (Work κ)) (caller : Caller κ)
      (lines : List Line) : Move u ⟨s, others⟩ ⟨(s.evaluateAll u caller lines).2, others⟩
  | request (s : State κ σ) (others : List (Work κ)) (q : Request κ) :
      Move u ⟨s, others⟩ ((q.opened s).beside others)
  | task (s : State κ σ) (others : List (Work κ)) {i : Nat} {t : Task κ}
      (h : s.tasks[i]? = some t) : Move u ⟨s, others⟩
        ⟨{ s with tasks := s.tasks.eraseIdx i }, .perform t (s.waiting t.future) :: others⟩
  | delivery (s : State κ σ) (others : List (Work κ)) {i : Nat} {d : Delivery}
      (h : s.deliveries[i]? = some d) : Move u ⟨s, others⟩
        ⟨{ s with deliveries := s.deliveries.eraseIdx i },
          .deliver d.future d.result (s.waiting d.future) :: others⟩
  | withdraw (s : State κ σ) (others : List (Work κ)) (f : Nat)
      (h : s.owner f = f ∨ others = []) : Move u ⟨s, others⟩ ⟨s.withdraw u f, others⟩
  | refuse (s : State κ σ) (others : List (Work κ)) (refusing : Bool) :
      Move u ⟨s, others⟩ ⟨{ s with refusing }, others⟩
  | shut (s : State κ σ) (others : List (Work κ)) :
      Move u ⟨s, others⟩ ⟨{ s with closed := true }, others⟩

abbrev Reaches (u : Setup κ σ) : Moment κ σ → Moment κ σ → Prop := Relation.ReflTransGen (Move u)

end Conditions.Evaluator
