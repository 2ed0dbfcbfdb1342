import Conditions.Proofs.Evaluator.Gate

/-!
# What the worker's side keeps

Requests, tasks, deliveries and cancellations come down to a few small changes of the state: futures
are changed, something is told or said, a task is queued or taken, and a line is evaluated for a
task. A relation between states that each of these keeps is kept by every step that does not
evaluate at once. Only a cancellation needs more: nothing else cancels a future.
-/

set_option autoImplicit false

namespace Conditions.Evaluator
open Expression

variable {κ σ : Type}

structure State.Idle (s s' : State κ σ) : Prop where
  resolver : s'.session.resolver = s.session.resolver
  asked : s'.session.asked = s.session.asked
  cache : s'.cache = s.cache
  tasks : s'.tasks = s.tasks
  history : s'.history = s.history
  closed : s.closed = true → s'.closed = true
  cancelled : ∀ f, s'.status f = .cancelled → s.status f = .cancelled

namespace State.Idle

variable (s : State κ σ)

theorem besides (journal : List Noted) (deliveries : List Delivery) (refusing : Bool) :
    Idle s { s with session := { s.session with journal }, deliveries, refusing } :=
  ⟨rfl, rfl, rfl, rfl, rfl, id, fun _ => id⟩

theorem revise {change : Future κ → Future κ}
    (h : ∀ x, (change x).status = .cancelled → x.status = .cancelled) (f : Nat) :
    Idle s (s.revise f change) where
  resolver := rfl
  asked := rfl
  cache := rfl
  tasks := rfl
  history := rfl
  closed := id
  cancelled g hg := by
    by_cases hfg : f = g
    · subst hfg
      simp only [State.status, revise_self] at hg ⊢
      cases hf : s.futures[f]? with
      | none => simp [hf] at hg
      | some x => exact h x (by simpa [hf] using hg)
    · rwa [status_congr (revise_ne hfg change)] at hg

theorem allot (outer : Option Nat) : Idle s (s.allot outer).2 where
  resolver := rfl
  asked := rfl
  cache := rfl
  tasks := rfl
  history := rfl
  closed := id
  cancelled f hf := by
    by_cases hlt : f < s.futures.length
    · rwa [status_congr (allot_old s outer hlt)] at hf
    · by_cases hnew : f = s.futures.length
      · rw [hnew, State.status, allot_new] at hf
        cases hf
      · have hle : (s.allot outer).2.futures.length ≤ f := by
          simp only [State.allot, List.length_append, List.length_singleton]
          omega
        rw [State.status, List.getElem?_eq_none hle] at hf
        cases hf

end State.Idle

section
variable (u : Setup κ σ) (s : State κ σ) (t : Task κ)

theorem State.futures_attempt : (s.attempt u t).2.futures = s.futures := by
  obtain ⟨outcome, asked, s', haside, he⟩ := attempt_eq u s t
  rw [he]
  exact haside.futures

theorem State.tasks_attempt : (s.attempt u t).2.tasks = s.tasks := by
  obtain ⟨outcome, asked, s', haside, he⟩ := attempt_eq u s t
  rw [he]
  exact haside.tasks

end

structure Upholds (u : Setup κ σ) (R : State κ σ → State κ σ → Prop) : Prop where
  trans : ∀ {s s' s''}, R s s' → R s' s'' → R s s''
  idle : ∀ {s s'}, State.Idle s s' → R s s'
  tell : ∀ s f {act : Act κ}, act.evaluation? = none → R s (s.tell f act)
  push : ∀ {s} t, s.refusal? u = none → R s { s with tasks := s.tasks ++ [t] }
  take : ∀ {s} {i : Nat} {t : Task κ}, s.tasks[i]? = some t →
    R s { s with tasks := s.tasks.eraseIdx i }
  taken : ∀ {s} {i : Nat} {t : Task κ}, s.tasks[i]? = some t →
    R s (State.attempt u { s with tasks := s.tasks.eraseIdx i } t).2
  instant : ∀ s t, u.worker = .immediate → R s (s.attempt u t).2

namespace Upholds

section
variable {u : Setup κ σ} {R : State κ σ → State κ σ → Prop} (h : Upholds u R)
  {act : State κ σ → Nat → Bool → State κ σ}
include h

theorem refl (s : State κ σ) : R s s := h.idle (.besides s _ _ _)

theorem say (s : State κ σ) (note : Note) : R s (s.say note) :=
  h.idle (.besides s _ _ _)

theorem settle (s : State κ σ) (f : Nat) (result : Bool) : R s (s.settle f result) := by
  unfold State.settle
  split
  · have hset : R s (s.setStatus f (.finished result)) :=
      h.idle (.revise s (by intro x hx; cases hx) f)
    exact h.trans hset (h.tell _ f rfl)
  · split
    · exact h.tell s f rfl
    · have hnotify : R s (s.notify f) := h.idle (.revise s (by intro x hx; exact hx) f)
      exact h.trans hnotify (h.tell _ f rfl)
  · exact h.tell s f rfl

theorem complete (hact : ∀ s f result, R s (act s f result)) (s : State κ σ) (f : Nat)
    (result : Bool) : R s (s.complete u act f result) := by
  unfold State.complete
  split
  · exact hact s f result
  · exact h.idle (.besides s _ _ _)
  · exact h.trans (h.say s _) (hact _ f result)

/-- A task is skipped, or its line is evaluated and the result handed on. -/
theorem perform (hact : ∀ s f result, R s (act s f result)) {s₀ s : State κ σ} {t : Task κ}
    (hskip : R s₀ s) (hattempt : R s₀ (s.attempt u t).2) : R s₀ (s.perform u act t) := by
  unfold State.perform
  split
  · exact hskip
  · cases he : s.attempt u t with
    | mk outcome s' =>
      rw [he] at hattempt
      cases outcome with
      | ok result => exact h.trans hattempt (h.complete hact s' _ _)
      | error failure =>
        exact h.trans hattempt (h.trans (h.say s' _) (h.complete hact _ _ _))

theorem submit (s : State κ σ) (t : Task κ) : R s (s.submit u t) := by
  unfold State.submit
  cases hr : s.refusal? u with
  | some refusal =>
    exact h.trans (h.tell s _ rfl) (h.trans (h.say _ _) (h.complete h.settle _ _ _))
  | none =>
    cases hw : u.worker with
    | immediate => exact h.perform h.settle (h.refl s) (h.instant s t hw)
    | queued => exact h.push t hr
    | owned => exact h.push t hr

theorem evaluateAsync (s : State κ σ) (caller : Caller κ) (line : Line) (outer : Option Nat) :
    R s (s.evaluateAsync u caller line outer).2 :=
  h.trans (h.idle (.allot s outer)) (h.trans (h.tell _ _ rfl) (h.submit _ _))

end

theorem uncancelled (u : Setup κ σ) :
    Upholds u fun s s' => ∀ f, s'.status f = .cancelled → s.status f = .cancelled where
  trans h h' f hf := h f (h' f hf)
  idle h := h.cancelled
  tell _ _ _ _ _ := id
  push _ _ _ := id
  take _ _ := id
  taken _ f hf := (State.status_congr (by rw [State.futures_attempt])).symm.trans hf
  instant s t _ f hf := (State.status_congr (by rw [State.futures_attempt])).symm.trans hf

theorem evaluateAsync_status_ne (u : Setup κ σ) (s : State κ σ) (caller : Caller κ) (line : Line)
    (outer : Option Nat) :
    (s.evaluateAsync u caller line outer).2.status s.futures.length ≠ .cancelled := by
  intro hc
  have hbefore := (uncancelled u).evaluateAsync s caller line outer _ hc
  rw [State.status, List.getElem?_eq_none (Nat.le_refl _)] at hbefore
  cases hbefore

section
variable {u : Setup κ σ} {R : State κ σ → State κ σ → Prop} (h : Upholds u R)
include h

theorem runLines (s : State κ σ) (caller : Caller κ) (outer number : Nat) (lines : List Line) :
    R s (s.runLines u caller outer number lines) := by
  induction lines generalizing s number with
  | nil =>
    unfold State.runLines
    split
    · exact h.say s _
    · exact h.settle s outer true
  | cons line rest ih =>
    have hline := h.evaluateAsync s caller line (some outer)
    unfold State.runLines
    split
    · exact h.say s _
    · dsimp only
      split
      · exact h.trans hline (h.idle (.revise _ (by intro x hx; exact hx) _))
      · exact h.trans hline (ih _ _)
      · exact h.trans hline (h.trans (h.say _ _) (h.settle _ outer false))
      · rename_i hc
        exact absurd hc (evaluateAsync_status_ne u s caller line (some outer))

theorem deliver (s : State κ σ) (f : Nat) (result : Bool) : R s (s.deliver u f result) := by
  unfold State.deliver
  split
  · have hsettle := h.settle s f result
    cases result with
    | true => exact h.trans hsettle (h.runLines _ _ _ _ _)
    | false => exact h.trans hsettle (h.trans (h.say _ _) (h.settle _ _ _))
  · exact h.settle s f result

theorem evaluateAllAsync (s : State κ σ) (caller : Caller κ) (lines : List Line) :
    R s (s.evaluateAllAsync u caller lines).2 := by
  have hallot : R s (s.allot none).2 := h.idle (.allot s none)
  unfold State.evaluateAllAsync
  dsimp only
  split
  · exact h.trans hallot (h.settle _ _ true)
  · exact h.trans hallot (h.runLines _ _ _ _ _)

theorem runTask (s : State κ σ) (i : Nat) : R s (s.runTask u i).2 := by
  unfold State.runTask
  cases ht : s.tasks[i]? with
  | none => exact h.refl s
  | some t => exact h.perform h.deliver (h.take ht) (h.taken ht)

theorem runDelivery (s : State κ σ) (i : Nat) : R s (s.runDelivery u i).2 := by
  unfold State.runDelivery
  cases s.deliveries[i]? with
  | none => exact h.refl s
  | some d =>
    have htake : R s { s with deliveries := s.deliveries.eraseIdx i } :=
      h.idle (.besides s _ _ _)
    exact h.trans htake (h.deliver _ d.future d.result)

theorem runTasks (s : State κ σ) (count : Nat) : R s (s.runTasks u count) := by
  induction count generalizing s with
  | zero => exact h.refl s
  | succ count ih => exact h.trans (h.runTask s 0) (ih _)

theorem close (s : State κ σ) : R s (s.close u) := by
  have hshut : R s { s with closed := true } :=
    h.idle ⟨rfl, rfl, rfl, rfl, rfl, fun _ => rfl, fun _ => id⟩
  unfold State.close
  split
  · exact h.trans hshut (h.runTasks _ _)
  · exact hshut

theorem withdraw (hcancel : ∀ s f, R s (State.cancel s f)) (s : State κ σ) (f : Nat) :
    R s (s.withdraw u f) := by
  unfold State.withdraw
  split
  · exact h.trans (hcancel s f) (hcancel _ _)
  · exact hcancel s f

end

end Upholds

def Step.blocks : Step κ → Bool
  | .parse _ | .evaluate _ _ | .evaluateAll _ _ => true
  | _ => false

/-- Every step on the worker's side keeps what its small changes keep. -/
theorem Upholds.step {u : Setup κ σ} {R : State κ σ → State κ σ → Prop} (h : Upholds u R)
    (s : State κ σ) {step : Step κ} (hstep : step.blocks = false)
    (hcancel : ∀ f, step = .cancel f → R s (s.withdraw u f)) : R s (s.step u step).2 := by
  cases step with
  | parse line => cases hstep
  | evaluate caller line => cases hstep
  | evaluateAll caller lines => cases hstep
  | async caller line => exact h.evaluateAsync s caller line none
  | allAsync caller lines => exact h.evaluateAllAsync s caller lines
  | runTask i => exact h.runTask s i
  | dispatch i => exact h.runDelivery s i
  | cancel f => exact hcancel f rfl
  | refuse refusing => exact h.idle (.besides s _ _ _)
  | close => exact h.close s

theorem Step.blocks_aside (u : Setup κ σ) (s : State κ σ) {step : Step κ}
    (hstep : step.blocks = true) : State.Aside s (s.step u step).2 := by
  cases step with
  | parse line => exact State.compile_aside s line
  | evaluate caller line => exact State.evaluate_aside u s caller line
  | evaluateAll caller lines => exact State.evaluateAll_aside u s caller lines
  | _ => cases hstep

theorem uncancelled_step (u : Setup κ σ) (s : State κ σ) {step : Step κ}
    (hstep : ∀ f, step ≠ .cancel f) {f : Nat} (hf : (s.step u step).2.status f = .cancelled) :
    s.status f = .cancelled := by
  cases hb : step.blocks with
  | true =>
    have haside := Step.blocks_aside u s hb
    exact (State.status_congr (by rw [haside.futures])).symm.trans hf
  | false => exact (Upholds.uncancelled u).step s hb (fun g hg => absurd hg (hstep g)) f hf

end Conditions.Evaluator
