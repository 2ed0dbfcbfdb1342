import Conditions.Evaluator.State

/-!
# Evaluating at once

A line is compiled and evaluated in the context of its text and its caller, and the context from
before is put back however it ends. Several lines are evaluated in order up to the first that is
false or malformed.
-/

set_option autoImplicit false

namespace Conditions.Evaluator
open Expression

variable {κ σ : Type}

namespace State

def compile (s : State κ σ) (line : Line) : Except Fault Compiled × State κ σ :=
  match present line with
  | .error fault => (.error fault, s)
  | .ok source =>
    let (answer, cache) := s.cache.compile source
    (answer, { s with cache })

def within {α : Type} (s : State κ σ) (line : Line) (caller : Caller κ)
    (act : State κ σ → α × State κ σ) : α × State κ σ :=
  let outside := s.session.context
  let inside : Journal.Context := ⟨some (line.getD []), caller.label⟩
  let (answer, s) := act { s with session := { s.session with context := inside } }
  (answer, { s with session := { s.session with context := outside } })

def assess (u : Setup κ σ) (caller : Caller κ) (line : Line) (s : State κ σ) :
    Except Failure Bool × State κ σ :=
  match s.compile line with
  | (.error fault, s) => (.error (.malformed fault), s)
  | (.ok compiled, s) =>
    match (Evaluation.condition u.resolver caller.value compiled.condition).run.run s.session with
    | (.error failure, session) => (.error failure, { s with session })
    | (.ok result, session) =>
      (.ok result, { s with session := session.say (.evaluated line result) })

def evaluate (u : Setup κ σ) (s : State κ σ) (caller : Caller κ) (line : Line) :
    Except Failure Bool × State κ σ :=
  s.within line caller (assess u caller line)

def evaluateAll (u : Setup κ σ) (s : State κ σ) (caller : Caller κ) :
    List Line → Except Failure Bool × State κ σ
  | [] => (.ok true, s)
  | line :: rest =>
    match s.evaluate u caller line with
    | (.ok true, s) => s.evaluateAll u caller rest
    | (.ok false, s) => (.ok false, s.say (.notMet line))
    | (.error (.malformed fault), s) => (.ok false, s.say (.unparsed line fault))
    | (.error failure, s) => (.error failure, s)

end State

end Conditions.Evaluator
