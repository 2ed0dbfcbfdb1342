import Conditions.Proofs.Evaluator.Observation
import Conditions.Evaluator.Work

/-!
# Steps as rows of moves

One hand that does the pieces of an operation to the end does what a step does. What all moves keep
is therefore kept by every run, whichever way its control went.
-/

set_option autoImplicit false

namespace Conditions.Evaluator
open Expression

variable {κ σ : Type}

@[simp] theorem Moment.beside_nil (m : Moment κ σ) : m.beside [] = m := by
  simp [Moment.beside]

theorem Move.next {u : Setup κ σ} (s : State κ σ) (w : Work κ) :
    Move u ⟨s, [w]⟩ (w.next u s) := by
  have h := Move.work (u := u) s w []
  rwa [Moment.beside_nil] at h

theorem Move.open {u : Setup κ σ} (s : State κ σ) (q : Request κ) :
    Move u ⟨s, []⟩ (q.opened s) := by
  have h := Move.request (u := u) s [] q
  rwa [Moment.beside_nil] at h

theorem Reaches.of_next {u : Setup κ σ} {s : State κ σ} {w : Work κ} {m : Moment κ σ}
    (h : Reaches u (w.next u s) m) : Reaches u ⟨s, [w]⟩ m :=
  .head (.next s w) h

section
variable {u : Setup κ σ} {s : State κ σ}

/-- Where work on a new future leads, for whose sake `chain` is in hand: the state `after` in which
the future is pending and the chain waits for it, or one in which it is done and the chain goes
on. -/
def Leads (u : Setup κ σ) (m : Moment κ σ) (after : State κ σ) (future : Nat)
    (chain : Option (Chain κ)) : Prop :=
  after.status future = .pending ∧ Reaches u m ⟨after.park future chain, []⟩ ∨
    ∃ result, after.status future = .finished result ∧
      Reaches u m ⟨after, (chain.map fun c => .resume c result).toList⟩

theorem Leads.of_next {w : Work κ} {after : State κ σ} {future : Nat}
    {chain : Option (Chain κ)} (h : Leads u (w.next u s) after future chain) :
    Leads u ⟨s, [w]⟩ after future chain := by
  rcases h with ⟨hp, hr⟩ | ⟨result, hf, hr⟩
  · exact .inl ⟨hp, hr.of_next⟩
  · exact .inr ⟨result, hf, hr.of_next⟩

theorem deliver_leads (s : State κ σ) {f : Nat} (hp : s.status f = .pending)
    (hf : f < s.futures.length) (result : Bool) (chain : Option (Chain κ)) :
    Leads u ⟨s, [.deliver f result chain]⟩ (s.settle f result) f chain := by
  refine .of_next (.inr ⟨result, ?_, ?_⟩)
  · rw [State.settle_pending hp]
    exact State.status_setStatus_self hf _
  · simp only [Work.next, hp, if_true]
    exact .refl

theorem complete_leads (s : State κ σ) {f : Nat} (hp : s.status f = .pending)
    (hf : f < s.futures.length) (result : Bool) (chain : Option (Chain κ)) :
    Leads u ⟨s, [.complete f result chain]⟩ (s.complete u State.settle f result) f chain := by
  apply Leads.of_next
  unfold State.complete
  cases hd : u.dispatch with
  | immediate =>
    simp only [Work.next, hd]
    exact deliver_leads s hp hf result chain
  | queued =>
    simp only [Work.next, hd]
    exact .inl ⟨hp, .refl⟩
  | dead =>
    simp only [Work.next, hd]
    exact deliver_leads (s.say .undispatched) hp hf result chain

theorem perform_leads (s : State κ σ) {t : Task κ} (hp : s.status t.future = .pending)
    (hf : t.future < s.futures.length) (chain : Option (Chain κ)) :
    Leads u ⟨s, [.perform t chain]⟩ (s.perform u State.settle t) t.future chain := by
  obtain ⟨outcome, asked, s', ha, he⟩ := State.attempt_eq u s t
  have hp' : s'.status t.future = .pending :=
    (State.status_congr (by rw [ha.futures])).trans hp
  have hf' : t.future < s'.futures.length := by rw [ha.futures]; exact hf
  apply Leads.of_next
  simp only [State.perform, Work.next, hp, reduceCtorEq, if_false]
  apply Leads.of_next
  cases outcome with
  | ok result =>
    simp only [Work.next, he]
    exact complete_leads (s'.tell _ _) hp' hf' result chain
  | error failure =>
    simp only [Work.next, he]
    exact complete_leads ((s'.tell _ _).say _) hp' hf' false chain

theorem submit_leads (s : State κ σ) {t : Task κ} (hp : s.status t.future = .pending)
    (hf : t.future < s.futures.length) (chain : Option (Chain κ)) :
    Leads u ⟨s, [.submit t chain]⟩ (s.submit u t) t.future chain := by
  apply Leads.of_next
  unfold State.submit
  cases hr : s.refusal? u with
  | some refusal =>
    simp only [Work.next, hr]
    exact complete_leads ((s.tell _ _).say _) hp hf false chain
  | none =>
    cases hw : u.worker with
    | immediate =>
      simp only [Work.next, hr, hw]
      exact perform_leads s hp hf chain
    | queued =>
      simp only [Work.next, hr, hw]
      exact .inl ⟨hp, .refl⟩
    | owned =>
      simp only [Work.next, hr, hw]
      exact .inl ⟨hp, .refl⟩

/-- A line that has just been put to the worker is either done at once or still pending. -/
theorem evaluateAsync_leads (s : State κ σ) (caller : Caller κ) (line : Line)
    (outer : Option Nat) (chain : Option (Chain κ)) :
    Leads u ⟨(s.allot outer).2.tell s.futures.length (.submitted line),
        [.submit ⟨caller, line, s.futures.length⟩ chain]⟩
      (s.evaluateAsync u caller line outer).2 s.futures.length chain :=
  submit_leads ((s.allot outer).2.tell _ _)
    (by simp [State.status, State.tell, State.allot]) (by simp [State.tell, State.allot]) chain

theorem runLines_reaches (s : State κ σ) (caller : Caller κ) (outer number : Nat)
    (lines : List Line) :
    Reaches u ⟨s, [.lines caller outer number lines]⟩
      ⟨s.runLines u caller outer number lines, []⟩ := by
  induction lines generalizing s number with
  | nil =>
    apply Reaches.of_next
    unfold State.runLines
    by_cases hc : s.status outer = .cancelled
    · simp only [Work.next, hc, if_true]
      exact .refl
    · simp only [Work.next, hc, if_false]
      exact .refl
  | cons line rest ih =>
    apply Reaches.of_next
    unfold State.runLines
    by_cases hc : s.status outer = .cancelled
    · simp only [Work.next, hc, if_true]
      exact .refl
    · have hfuture : (s.evaluateAsync u caller line (some outer)).1 = s.futures.length := rfl
      simp only [Work.next, hc, if_false, hfuture]
      apply Reaches.of_next
      rcases evaluateAsync_leads (u := u) s caller line (some outer)
          (some ⟨caller, line, number + 1, rest, outer⟩) with ⟨hp, hr⟩ | ⟨result, hf, hr⟩
      · rw [hp]
        exact hr
      · rw [hf]
        cases result with
        | true => exact hr.trans (Reaches.of_next (ih _ _))
        | false => exact hr.trans (Reaches.of_next .refl)

theorem resume_reaches (s : State κ σ) (chain : Chain κ) (result : Bool) :
    Reaches u ⟨s, [.resume chain result]⟩ ⟨s.resume u chain (.finished result), []⟩ := by
  cases result with
  | true => exact .of_next (runLines_reaches s _ _ _ _)
  | false => exact .of_next .refl

theorem deliver_reaches (s : State κ σ) (f : Nat) (result : Bool) :
    Reaches u ⟨s, [.deliver f result (s.waiting f)]⟩ ⟨s.deliver u f result, []⟩ := by
  apply Reaches.of_next
  unfold State.deliver
  cases hs : s.status f with
  | pending =>
    cases hw : s.waiting f with
    | none =>
      simp only [Work.next, hs, if_true]
      exact .refl
    | some chain =>
      simp only [Work.next, hs, if_true]
      exact resume_reaches _ chain result
  | cancelled =>
    simp only [Work.next, hs, reduceCtorEq, if_false]
    exact .refl
  | finished _ =>
    simp only [Work.next, hs, reduceCtorEq, if_false]
    exact .refl

theorem park_waiting (s : State κ σ) (f : Nat) : s.park f (s.waiting f) = s := by
  cases hw : s.waiting f with
  | none => rfl
  | some chain =>
    cases hf : s.futures[f]? with
    | none => simp [State.waiting, hf] at hw
    | some x =>
      simp only [State.waiting, hf, Option.bind_some] at hw
      have hlt := (List.getElem?_eq_some_iff.mp hf).1
      have hx := (List.getElem?_eq_some_iff.mp hf).2
      have hm : s.futures.modify f (fun x => { x with waiting := some chain }) = s.futures := by
        apply List.ext_getElem?
        intro g
        by_cases hg : f = g
        · subst hg
          rw [List.getElem?_modify_eq, hf, ← hw]
          rfl
        · rw [List.getElem?_modify_ne _ _ hg]
      simp only [State.park, State.await, State.revise, hm]

theorem complete_reaches (s : State κ σ) (f : Nat) (result : Bool) :
    Reaches u ⟨s, [.complete f result (s.waiting f)]⟩
      ⟨s.complete u (State.deliver u) f result, []⟩ := by
  apply Reaches.of_next
  unfold State.complete
  cases hd : u.dispatch with
  | immediate =>
    simp only [Work.next, hd]
    exact deliver_reaches s f result
  | queued =>
    simp only [Work.next, hd]
    have hp := park_waiting { s with deliveries := s.deliveries ++ [⟨f, result⟩] } f
    change State.park _ f (s.waiting f) = _ at hp
    rw [hp]
  | dead =>
    simp only [Work.next, hd]
    exact deliver_reaches (s.say .undispatched) f result

theorem perform_reaches (s : State κ σ) (t : Task κ) :
    Reaches u ⟨s, [.perform t (s.waiting t.future)]⟩
      ⟨s.perform u (State.deliver u) t, []⟩ := by
  obtain ⟨outcome, asked, s', ha, he⟩ := State.attempt_eq u s t
  have hw : s.waiting t.future = s'.waiting t.future :=
    State.waiting_congr (by rw [ha.futures])
  apply Reaches.of_next
  unfold State.perform
  by_cases hc : s.status t.future = .cancelled
  · simp only [Work.next, hc, if_true]
    exact .refl
  · simp only [Work.next, hc, if_false]
    apply Reaches.of_next
    cases outcome with
    | ok result =>
      simp only [Work.next, he, hw]
      exact complete_reaches (s'.tell _ _) _ _
    | error failure =>
      simp only [Work.next, he, hw]
      exact complete_reaches ((s'.tell _ _).say _) _ _

theorem runTask_reaches (s : State κ σ) (i : Nat) :
    Reaches u ⟨s, []⟩ ⟨(s.runTask u i).2, []⟩ := by
  unfold State.runTask
  cases h : s.tasks[i]? with
  | none => exact .refl
  | some t => exact .head (.task s [] h) (perform_reaches { s with tasks := s.tasks.eraseIdx i } t)

theorem runDelivery_reaches (s : State κ σ) (i : Nat) :
    Reaches u ⟨s, []⟩ ⟨(s.runDelivery u i).2, []⟩ := by
  unfold State.runDelivery
  cases h : s.deliveries[i]? with
  | none => exact .refl
  | some d =>
    exact .head (.delivery s [] h)
      (deliver_reaches { s with deliveries := s.deliveries.eraseIdx i } d.future d.result)

theorem runTasks_reaches (s : State κ σ) (count : Nat) :
    Reaches u ⟨s, []⟩ ⟨s.runTasks u count, []⟩ := by
  induction count generalizing s with
  | zero => exact .refl
  | succ count ih => exact (runTask_reaches s 0).trans (ih _)

theorem close_reaches (s : State κ σ) : Reaches u ⟨s, []⟩ ⟨s.close u, []⟩ := by
  unfold State.close
  by_cases h : u.worker = .owned
  · simp only [h, if_true]
    exact .head (.shut s []) (runTasks_reaches _ _)
  · simp only [h, if_false]
    exact .single (.shut s [])

/-- The step that makes a request comes to its end from where the future has been made. -/
theorem request_reaches (s : State κ σ) (q : Request κ) :
    Reaches u (q.opened s) ⟨(s.step u q.step).2, []⟩ := by
  cases q with
  | one caller line =>
    rcases evaluateAsync_leads (u := u) s caller line none none with ⟨-, hr⟩ | ⟨result, -, hr⟩
    · exact hr
    · exact hr
  | all caller lines =>
    have hr := runLines_reaches (u := u) (s.allot none).2 caller s.futures.length 1 lines
    cases lines with
    | nil =>
      have hn : (s.allot none).2.status s.futures.length ≠ .cancelled := by
        simp [State.status, State.allot]
      unfold State.runLines at hr
      simp only [hn, if_false] at hr
      exact hr
    | cons line rest => exact hr

theorem step_reaches (s : State κ σ) (step : Step κ) :
    Reaches u ⟨s, []⟩ ⟨(s.step u step).2, []⟩ := by
  cases step with
  | parse line => exact .single (.compile s [] line)
  | evaluate caller line => exact .single (.evaluate s [] caller line)
  | evaluateAll caller lines => exact .single (.evaluateAll s [] caller lines)
  | async caller line => exact .head (.open s (.one caller line)) (request_reaches s _)
  | allAsync caller lines => exact .head (.open s (.all caller lines)) (request_reaches s _)
  | runTask i => exact runTask_reaches s i
  | dispatch i => exact runDelivery_reaches s i
  | cancel f => exact .single (.withdraw s [] f (.inr rfl))
  | refuse refusing => exact .single (.refuse s [] refusing)
  | close => exact close_reaches s

theorem run_reaches (s : State κ σ) (steps : List (Step κ)) :
    Reaches u ⟨s, []⟩ ⟨s.run u steps, []⟩ := by
  induction steps generalizing s with
  | nil => exact .refl
  | cons step rest ih => exact (step_reaches s step).trans (ih _)

end

end Conditions.Evaluator
