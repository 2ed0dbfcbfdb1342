import Conditions.Evaluator.Future

/-!
# Steps

The operations on an evaluator as data, with their answers, so that a run of it is a list of steps.
A step comes to its end before the next one begins, as on a single thread, or on several that wait
for each other. A worker from outside may be told to refuse tasks from now on, or no longer.
-/

set_option autoImplicit false

namespace Conditions.Evaluator
open Expression

variable {κ σ : Type}

inductive Step (κ : Type) where
  | parse (line : Line)
  | evaluate (caller : Caller κ) (line : Line)
  | evaluateAll (caller : Caller κ) (lines : List Line)
  | async (caller : Caller κ) (line : Line)
  | allAsync (caller : Caller κ) (lines : List Line)
  | runTask (index : Nat)
  | dispatch (index : Nat)
  | cancel (future : Nat)
  | refuse (refusing : Bool)
  | close

inductive Answer where
  | compiled (answer : Except Fault Compiled)
  | result (answer : Except Failure Bool)
  | future (number : Nat)
  | ran (did : Bool)
  | cancelled (did : Bool)
  | none

namespace State

def step (u : Setup κ σ) (s : State κ σ) : Step κ → Answer × State κ σ
  | .parse line =>
    let (answer, s) := s.compile line
    (.compiled answer, s)
  | .evaluate caller line =>
    let (answer, s) := s.evaluate u caller line
    (.result answer, s)
  | .evaluateAll caller lines =>
    let (answer, s) := s.evaluateAll u caller lines
    (.result answer, s)
  | .async caller line =>
    let (future, s) := s.evaluateAsync u caller line
    (.future future, s)
  | .allAsync caller lines =>
    let (future, s) := s.evaluateAllAsync u caller lines
    (.future future, s)
  | .runTask index =>
    let (did, s) := s.runTask u index
    (.ran did, s)
  | .dispatch index =>
    let (did, s) := s.runDelivery u index
    (.ran did, s)
  | .cancel future =>
    let s := s.withdraw u future
    (.cancelled (s.status future == .cancelled), s)
  | .refuse refusing => (.none, { s with refusing })
  | .close => (.none, s.close u)

def run (u : Setup κ σ) (s : State κ σ) : List (Step κ) → State κ σ
  | [] => s
  | step :: rest => (s.step u step).2.run u rest

end State

end Conditions.Evaluator
