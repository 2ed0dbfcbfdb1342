import Conditions.Evaluator.Step

/-!
# Closing with a worker from outside

What is evaluated at once looks at the session and the cache alone. A worker from outside does not
look at whether the evaluator is closed either, so to close one that has such a worker only leaves
a mark on it: a run comes to the same without the steps that close.
-/

set_option autoImplicit false

namespace Conditions.Evaluator
open Expression

variable {κ σ : Type}

namespace State

def having (s : State κ σ) (session : Session κ σ) (cache : Cache) : State κ σ :=
  { s with session, cache }

section
variable (u : Setup κ σ) (r s : State κ σ)

theorem compile_having (line : Line) : (r.having s.session s.cache).compile line =
    ((s.compile line).1, r.having (s.compile line).2.session (s.compile line).2.cache) := by
  unfold compile
  cases present line <;> rfl

theorem assess_having (caller : Caller κ) (line : Line) :
    assess u caller line (r.having s.session s.cache) =
      ((assess u caller line s).1,
        r.having (assess u caller line s).2.session (assess u caller line s).2.cache) := by
  unfold assess
  rw [compile_having]
  cases s.compile line with
  | mk answer after =>
    cases answer with
    | error fault => rfl
    | ok compiled =>
      have hsession : (r.having after.session after.cache).session = after.session := rfl
      simp only [hsession]
      cases (Evaluation.condition u.resolver caller.value compiled.condition).run.run
          after.session with
      | mk outcome session => cases outcome <;> rfl

theorem evaluate_having (caller : Caller κ) (line : Line) :
    (r.having s.session s.cache).evaluate u caller line =
      ((s.evaluate u caller line).1,
        r.having (s.evaluate u caller line).2.session (s.evaluate u caller line).2.cache) := by
  have hinside := assess_having u r { s with session := { s.session with
    context := ⟨some (line.getD []), caller.label⟩ } } caller line
  exact congrArg (fun p : Except Failure Bool × State κ σ =>
    (p.1, { p.2 with session := { p.2.session with context := s.session.context } })) hinside

theorem evaluateAll_having (caller : Caller κ) (lines : List Line) :
    (r.having s.session s.cache).evaluateAll u caller lines =
      ((s.evaluateAll u caller lines).1,
        r.having (s.evaluateAll u caller lines).2.session
          (s.evaluateAll u caller lines).2.cache) := by
  induction lines generalizing s with
  | nil => rfl
  | cons line rest ih =>
    unfold evaluateAll
    rw [evaluate_having]
    cases s.evaluate u caller line with
    | mk answer after =>
      cases answer with
      | ok result =>
        cases result with
        | true => exact ih after
        | false => rfl
      | error failure => cases failure <;> rfl

end

def mark (s : State κ σ) (closed : Bool) : State κ σ := { s with closed }

section
variable (u : Setup κ σ) (s : State κ σ) (c : Bool)

theorem compile_mark (line : Line) :
    (s.mark c).compile line = ((s.compile line).1, (s.compile line).2.mark c) := by
  unfold compile
  cases present line <;> rfl

theorem evaluate_mark (caller : Caller κ) (line : Line) :
    (s.mark c).evaluate u caller line =
      ((s.evaluate u caller line).1, (s.evaluate u caller line).2.mark c) := by
  have hself := congrArg Prod.snd (evaluate_having u s s caller line)
  exact (evaluate_having u (s.mark c) s caller line).trans
    (Prod.ext rfl (congrArg (fun after => after.mark c) hself).symm)

theorem evaluateAll_mark (caller : Caller κ) (lines : List Line) :
    (s.mark c).evaluateAll u caller lines =
      ((s.evaluateAll u caller lines).1, (s.evaluateAll u caller lines).2.mark c) := by
  have hself := congrArg Prod.snd (evaluateAll_having u s s caller lines)
  exact (evaluateAll_having u (s.mark c) s caller lines).trans
    (Prod.ext rfl (congrArg (fun after => after.mark c) hself).symm)

theorem attempt_mark (t : Task κ) :
    (s.mark c).attempt u t = ((s.attempt u t).1, (s.attempt u t).2.mark c) := by
  unfold attempt
  rw [evaluate_mark]
  rfl

theorem closed_attempt (t : Task κ) : (s.attempt u t).2.closed = s.closed :=
  congrArg (fun p => p.2.closed) (attempt_mark u s s.closed t)

theorem settle_mark (f : Nat) (result : Bool) :
    (s.mark c).settle f result = (s.settle f result).mark c := by
  have hstatus : (s.mark c).status f = s.status f := rfl
  have hnotified : (s.mark c).notified f = s.notified f := rfl
  unfold settle
  rw [hstatus, hnotified]
  cases s.status f with
  | cancelled => cases s.notified f <;> rfl
  | _ => rfl

theorem cancel_mark (f : Nat) : (s.mark c).cancel f = (s.cancel f).mark c := by
  have hstatus : (s.mark c).status f = s.status f := rfl
  unfold cancel
  rw [hstatus]
  split <;> rfl

end

/-! Work does not see the mark, if the way in which results are settled does not, and if the worker
is from outside. -/

section
variable {u : Setup κ σ} {act : State κ σ → Nat → Bool → State κ σ}
  (hact : ∀ s c f result, act (mark s c) f result = (act s f result).mark c)
include hact

theorem complete_mark (s : State κ σ) (c : Bool) (f : Nat) (result : Bool) :
    (s.mark c).complete u act f result = (s.complete u act f result).mark c := by
  unfold complete
  cases u.dispatch with
  | immediate => exact hact s c f result
  | queued => rfl
  | dead => exact hact (s.say .undispatched) c f result

theorem perform_mark (s : State κ σ) (c : Bool) (t : Task κ) :
    (s.mark c).perform u act t = (s.perform u act t).mark c := by
  have hstatus : (s.mark c).status t.future = s.status t.future := rfl
  unfold perform
  rw [hstatus, attempt_mark]
  split
  · rfl
  · cases s.attempt u t with
    | mk outcome after =>
      cases outcome with
      | ok result => exact complete_mark hact after c t.future result
      | error failure => exact complete_mark hact (after.say _) c t.future false

end

section
variable {u : Setup κ σ} (hworker : u.worker ≠ .owned) (s : State κ σ) (c : Bool)
include hworker

theorem submit_mark (t : Task κ) : (s.mark c).submit u t = (s.submit u t).mark c := by
  have hrefusal : (s.mark c).refusal? u = s.refusal? u := by
    unfold refusal?
    cases hw : u.worker with
    | owned => exact absurd hw hworker
    | _ => rfl
  unfold submit
  rw [hrefusal]
  cases s.refusal? u with
  | some refusal =>
    let told := (s.tell t.future (.refused t.line refusal)).say (.unscheduled t.line refusal)
    exact complete_mark settle_mark told c t.future false
  | none =>
    cases u.worker with
    | immediate => exact perform_mark settle_mark s c t
    | _ => rfl

theorem evaluateAsync_mark (caller : Caller κ) (line : Line) (outer : Option Nat) :
    (s.mark c).evaluateAsync u caller line outer =
      ((s.evaluateAsync u caller line outer).1,
        (s.evaluateAsync u caller line outer).2.mark c) := by
  let made := (s.allot outer).2.tell s.futures.length (.submitted line)
  exact congrArg (Prod.mk s.futures.length)
    (submit_mark hworker made c ⟨caller, line, s.futures.length⟩)

theorem runLines_mark (caller : Caller κ) (outer number : Nat) (lines : List Line) :
    (s.mark c).runLines u caller outer number lines =
      (s.runLines u caller outer number lines).mark c := by
  have hstatus : ∀ (s : State κ σ) f, (s.mark c).status f = s.status f := fun _ _ => rfl
  induction lines generalizing s number with
  | nil =>
    unfold runLines
    rw [hstatus, settle_mark]
    split <;> rfl
  | cons line rest ih =>
    unfold runLines
    rw [hstatus]
    split
    · rfl
    · dsimp only
      rw [evaluateAsync_mark hworker]
      cases s.evaluateAsync u caller line (some outer) with
      | mk g after =>
        dsimp only
        rw [hstatus]
        cases after.status g with
        | pending => rfl
        | cancelled => exact cancel_mark after c outer
        | finished result =>
          cases result with
          | true => exact ih after (number + 1)
          | false => exact settle_mark (after.say (.chainFailed line)) c outer false

theorem resume_mark (chain : Chain κ) (status : Status) :
    (s.mark c).resume u chain status = (s.resume u chain status).mark c := by
  cases status with
  | pending => rfl
  | cancelled => exact cancel_mark s c chain.outer
  | finished result =>
    cases result with
    | true => exact runLines_mark hworker s c _ _ _ _
    | false => exact settle_mark (s.say (.chainFailed chain.line)) c chain.outer false

theorem deliver_mark (f : Nat) (result : Bool) :
    (s.mark c).deliver u f result = (s.deliver u f result).mark c := by
  have hstatus : (s.mark c).status f = s.status f := rfl
  have hwaiting : (s.mark c).waiting f = s.waiting f := rfl
  unfold deliver
  rw [hstatus, hwaiting, settle_mark]
  split
  · exact resume_mark hworker _ c _ _
  · rfl

theorem withdraw_mark (f : Nat) : (s.mark c).withdraw u f = (s.withdraw u f).mark c := by
  have hstatus : (s.mark c).status f = s.status f := rfl
  have hwaiting : (s.mark c).waiting f = s.waiting f := rfl
  unfold withdraw
  rw [hstatus, hwaiting, cancel_mark]
  split
  · exact resume_mark hworker _ c _ _
  · rfl

theorem evaluateAllAsync_mark (caller : Caller κ) (lines : List Line) :
    (s.mark c).evaluateAllAsync u caller lines =
      ((s.evaluateAllAsync u caller lines).1, (s.evaluateAllAsync u caller lines).2.mark c) := by
  have hallot : ((s.mark c).allot none).2 = (s.allot none).2.mark c := rfl
  unfold evaluateAllAsync
  dsimp only
  rw [hallot, settle_mark, runLines_mark hworker]
  split <;> rfl

theorem runTask_mark (i : Nat) :
    (s.mark c).runTask u i = ((s.runTask u i).1, (s.runTask u i).2.mark c) := by
  have hat : (s.mark c).tasks[i]? = s.tasks[i]? := rfl
  unfold runTask
  rw [hat]
  cases s.tasks[i]? with
  | none => rfl
  | some t =>
    let taken := { s with tasks := s.tasks.eraseIdx i }
    exact congrArg (Prod.mk true) (perform_mark (deliver_mark hworker) taken c t)

theorem runDelivery_mark (i : Nat) :
    (s.mark c).runDelivery u i = ((s.runDelivery u i).1, (s.runDelivery u i).2.mark c) := by
  have hat : (s.mark c).deliveries[i]? = s.deliveries[i]? := rfl
  unfold runDelivery
  rw [hat]
  cases s.deliveries[i]? with
  | none => rfl
  | some d =>
    let taken := { s with deliveries := s.deliveries.eraseIdx i }
    exact congrArg (Prod.mk true) (deliver_mark hworker taken c d.future d.result)

end

end State

def Step.closes : Step κ → Bool
  | .close => true
  | _ => false

namespace State

section
variable {u : Setup κ σ} (hworker : u.worker ≠ .owned) (s : State κ σ) (c : Bool)
include hworker

theorem close_outside : s.close u = s.mark true := if_neg hworker

theorem step_mark {step : Step κ} (hstep : step.closes = false) :
    (s.mark c).step u step = ((s.step u step).1, (s.step u step).2.mark c) := by
  cases step with
  | parse line => simp only [State.step, compile_mark]
  | evaluate caller line => simp only [State.step, evaluate_mark]
  | evaluateAll caller lines => simp only [State.step, evaluateAll_mark]
  | async caller line => simp only [State.step, evaluateAsync_mark hworker]
  | allAsync caller lines => simp only [State.step, evaluateAllAsync_mark hworker]
  | runTask i => simp only [State.step, runTask_mark hworker]
  | dispatch i => simp only [State.step, runDelivery_mark hworker]
  | cancel f =>
    simp only [State.step, withdraw_mark hworker]
    rfl
  | refuse refusing => rfl
  | close => cases hstep

theorem answer_mark (step : Step κ) : ((s.mark c).step u step).1 = (s.step u step).1 := by
  cases hstep : step.closes with
  | true =>
    cases step with
    | close => rfl
    | _ => cases hstep
  | false => rw [step_mark hworker s c hstep]

/-- A run from a marked state comes to what it comes to without closing, but for the mark. -/
theorem run_mark (steps : List (Step κ)) : ∃ c', (s.mark c).run u steps =
    (s.run u (steps.filter fun step => !step.closes)).mark c' := by
  induction steps generalizing s c with
  | nil => exact ⟨c, rfl⟩
  | cons step rest ih =>
    cases hstep : step.closes with
    | true =>
      cases step with
      | close =>
        have hclose : ((s.mark c).step u .close).2 = s.mark true := close_outside hworker (s.mark c)
        rw [run, hclose]
        exact ih s true
      | _ => cases hstep
    | false =>
      have hkept : (step :: rest).filter (fun step => !step.closes) =
          step :: rest.filter fun step => !step.closes := List.filter_cons_of_pos (by simp [hstep])
      rw [hkept, run, run, step_mark hworker s c hstep]
      exact ih _ c

end

end State

end Conditions.Evaluator
