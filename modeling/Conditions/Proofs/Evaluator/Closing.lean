import Conditions.Proofs.Evaluator.Context
import Conditions.Proofs.Evaluator.Labour
import Conditions.Proofs.Evaluator.Outside
import Conditions.Proofs.Evaluator.Cancellation

/-!
# What closing does

The evaluator's own worker closes with it: it first runs what it has queued, and from then on it
takes nothing, so that nothing is evaluated on it any more. A request is refused at its first line,
which makes it false. What is evaluated at once goes on as before. For a worker from outside nothing
changes at all.
-/

set_option autoImplicit false

namespace Conditions.Evaluator
open Expression

variable {κ σ : Type}

namespace State

structure Shut (s : State κ σ) : Prop where
  closed : s.closed = true
  tasks : s.tasks = []

structure Still (s s' : State κ σ) : Prop where
  asked : s'.session.asked = s.session.asked
  resolver : s'.session.resolver = s.session.resolver
  evaluated : evaluated s'.history = evaluated s.history

theorem Still.trans {s s' s'' : State κ σ} (h : Still s s') (h' : Still s' s'') : Still s s'' where
  asked := h'.asked.trans h.asked
  resolver := h'.resolver.trans h.resolver
  evaluated := h'.evaluated.trans h.evaluated

section
variable {u : Setup κ σ} (hworker : u.worker = .owned)
include hworker

theorem refusal?_closed {s : State κ σ} (h : s.closed = true) : s.refusal? u = some .closed := by
  unfold refusal?
  rw [hworker, h]
  rfl

theorem drains_upheld : Upholds u fun s s' => s.closed = true →
    s'.closed = true ∧ s'.tasks.length ≤ s.tasks.length where
  trans h h' hs := ⟨(h' (h hs).1).1, Nat.le_trans (h' (h hs).1).2 (h hs).2⟩
  idle h hs := ⟨h.closed hs, Nat.le_of_eq (by rw [h.tasks])⟩
  tell _ _ _ _ hs := ⟨hs, Nat.le_refl _⟩
  push _ hopen hs := by
    rw [refusal?_closed hworker hs] at hopen
    cases hopen
  take _ hs := ⟨hs, List.length_eraseIdx_le _ _⟩
  taken _ hs := by
    rw [closed_attempt, tasks_attempt]
    exact ⟨hs, List.length_eraseIdx_le _ _⟩
  instant _ _ himmediate := absurd (hworker.symm.trans himmediate) nofun

/-- To run the first task of a closed worker leaves one less. -/
theorem runTask_drains {s : State κ σ} (hs : s.closed = true) {count : Nat}
    (hcount : s.tasks.length ≤ count + 1) :
    (s.runTask u 0).2.closed = true ∧ (s.runTask u 0).2.tasks.length ≤ count := by
  unfold runTask
  cases htasks : s.tasks with
  | nil => exact ⟨hs, by simp [htasks]⟩
  | cons t rest =>
    have hlength : rest.length ≤ count := by simpa [htasks] using hcount
    have hdrains := drains_upheld hworker
    have hperform := hdrains.perform hdrains.deliver (hdrains.refl { s with tasks := rest })
      (t := t) (fun hs => by rw [closed_attempt, tasks_attempt]; exact ⟨hs, Nat.le_refl _⟩) hs
    exact ⟨hperform.1, Nat.le_trans hperform.2 hlength⟩

theorem runTasks_shut {s : State κ σ} (hs : s.closed = true) {count : Nat}
    (hcount : s.tasks.length ≤ count) : (s.runTasks u count).Shut := by
  induction count generalizing s with
  | zero => exact ⟨hs, List.eq_nil_of_length_eq_zero (Nat.le_zero.mp hcount)⟩
  | succ count ih =>
    obtain ⟨hclosed, htasks⟩ := runTask_drains hworker hs hcount
    exact ih hclosed htasks

theorem close_shut (s : State κ σ) : (s.close u).Shut := by
  unfold close
  rw [if_pos hworker]
  exact runTasks_shut hworker rfl (Nat.le_refl _)

theorem close_of_shut {s : State κ σ} (h : s.Shut) : s.close u = s := by
  have hmark : s.mark true = s := by rw [← h.closed]; rfl
  unfold close
  rw [if_pos hworker]
  change (s.mark true).runTasks u s.tasks.length = s
  rw [hmark, h.tasks]
  rfl

/-- What is shut stays shut, and nothing is evaluated on its worker. -/
theorem shut_upheld : Upholds u fun s s' => s.Shut → s'.Shut ∧ Still s s' where
  trans h h' hs := by
    obtain ⟨hs', hstill⟩ := h hs
    obtain ⟨hs'', hstill'⟩ := h' hs'
    exact ⟨hs'', hstill.trans hstill'⟩
  idle h hs :=
    ⟨⟨h.closed hs.closed, h.tasks.trans hs.tasks⟩, h.asked, h.resolver, by rw [h.history]⟩
  tell s f act hact hs := by
    refine ⟨⟨hs.closed, hs.tasks⟩, rfl, rfl, ?_⟩
    change evaluated (s.history ++ [⟨f, s.owner f, act⟩]) = _
    rw [evaluated_append]
    simp [evaluated, hact]
  push _ hopen hs := by
    rw [refusal?_closed hworker hs.closed] at hopen
    cases hopen
  take ht hs := by
    rw [hs.tasks] at ht
    cases ht
  taken ht hs := by
    rw [hs.tasks] at ht
    cases ht
  instant _ _ himmediate := absurd (hworker.symm.trans himmediate) nofun

end

theorem cancel_still (s : State κ σ) (f : Nat) (hs : s.Shut) :
    (s.cancel f).Shut ∧ Still s (s.cancel f) := by
  unfold cancel
  split
  · exact ⟨⟨hs.closed, hs.tasks⟩, rfl, rfl, rfl⟩
  · exact ⟨hs, rfl, rfl, rfl⟩

theorem step_having (u : Setup κ σ) (r s : State κ σ) {step : Step κ}
    (hstep : step.blocks = true) : (r.having s.session s.cache).step u step =
      ((s.step u step).1, r.having (s.step u step).2.session (s.step u step).2.cache) := by
  cases step with
  | parse line => simp only [State.step, compile_having]
  | evaluate caller line => simp only [State.step, evaluate_having]
  | evaluateAll caller lines => simp only [State.step, evaluateAll_having]
  | _ => cases hstep

section
variable {u : Setup κ σ} (hworker : u.worker = .owned) {s : State κ σ} (hs : s.Shut)
include hworker hs

theorem step_still {step : Step κ} (hstep : step.blocks = false) :
    (s.step u step).2.Shut ∧ Still s (s.step u step).2 :=
  (shut_upheld hworker).step s hstep
    (fun f _ => (shut_upheld hworker).withdraw cancel_still s f) hs

theorem step_shut (step : Step κ) : (s.step u step).2.Shut ∧
    evaluated (s.step u step).2.history = evaluated s.history := by
  cases hstep : step.blocks with
  | true =>
    have hself : (s.step u step).2 = s.having _ _ := congrArg Prod.snd (step_having u s s hstep)
    rw [hself]
    exact ⟨⟨hs.closed, hs.tasks⟩, rfl⟩
  | false =>
    obtain ⟨hshut, hstill⟩ := step_still hworker hs hstep
    exact ⟨hshut, hstill.evaluated⟩

theorem run_shut (steps : List (Step κ)) : (s.run u steps).Shut ∧
    evaluated (s.run u steps).history = evaluated s.history := by
  induction steps generalizing s with
  | nil => exact ⟨hs, rfl⟩
  | cons step rest ih =>
    obtain ⟨hshut, hevaluated⟩ := step_shut hworker hs step
    obtain ⟨hshut', hevaluated'⟩ := ih hshut
    exact ⟨hshut', hevaluated'.trans hevaluated⟩

end

end State

namespace State

variable {u : Setup κ σ} {s : State κ σ}

theorem warnings_complete (f : Nat) (result : Bool) :
    (s.complete u settle f result).session.warnings = s.session.warnings := by
  unfold complete
  cases u.dispatch with
  | immediate => exact congrArg Session.warnings (s.settle_session f result)
  | queued => rfl
  | dead =>
    change ((s.say .undispatched).settle f result).session.warnings = _
    rw [settle_session]
    exact (Session.warnings_say s.session .undispatched).trans (List.append_nil _)

/-- A result that is not delivered at once leaves its future pending. -/
theorem status_complete {f : Nat} (hp : s.status f = .pending) (hf : f < s.futures.length)
    (result : Bool) : (s.complete u settle f result).status f =
      if u.dispatch = .queued then .pending else .finished result := by
  unfold complete
  cases u.dispatch with
  | immediate => exact status_settle_pending hp hf result
  | queued => exact hp
  | dead => exact status_settle_pending (s := s.say .undispatched) hp hf result

theorem futures_complete_ne {f g : Nat} (h : f ≠ g) (result : Bool) :
    (s.complete u settle f result).futures[g]? = s.futures[g]? := by
  unfold complete
  cases u.dispatch with
  | immediate => exact settle_ne h result
  | queued => rfl
  | dead => exact settle_ne (s := s.say .undispatched) h result

theorem submit_refused {t : Task κ} {refusal : Refusal} (h : s.refusal? u = some refusal) :
    s.submit u t = ((s.tell t.future (.refused t.line refusal)).say
      (.unscheduled t.line refusal)).complete u settle t.future false := by
  rw [submit, h]

section
variable (hworker : u.worker = .owned) (hs : s.closed = true) (caller : Caller κ) (line : Line)
include hworker hs

/-- A line put to a closed worker is refused and warned about, and comes out false. -/
theorem evaluateAsync_refused (outer : Option Nat) : s.evaluateAsync u caller line outer =
    (s.futures.length, State.complete u settle
      ((((s.allot outer).2.tell s.futures.length (.submitted line)).tell s.futures.length
        (.refused line .closed)).say (.unscheduled line .closed)) s.futures.length false) := by
  let made := (s.allot outer).2.tell s.futures.length (.submitted line)
  have hrefusal : made.refusal? u = some .closed := refusal?_closed hworker hs
  exact congrArg (Prod.mk s.futures.length)
    (submit_refused (t := ⟨caller, line, s.futures.length⟩) hrefusal)

theorem evaluateAsync_warnings (outer : Option Nat) :
    (s.evaluateAsync u caller line outer).2.session.warnings =
      s.session.warnings ++ [(Note.unscheduled line .closed).entry] := by
  rw [evaluateAsync_refused hworker hs, warnings_complete]
  exact Session.warnings_say s.session (.unscheduled line .closed)

theorem evaluateAsync_status (outer : Option Nat) :
    (s.evaluateAsync u caller line outer).2.status s.futures.length =
      if u.dispatch = .queued then .pending else .finished false := by
  have hp : (s.allot outer).2.status s.futures.length = .pending := by
    rw [status, allot_new]
  have hf : s.futures.length < (s.allot outer).2.futures.length := by simp [allot]
  rw [evaluateAsync_refused hworker hs]
  refine status_complete ?_ ?_ false
  · exact hp
  · exact hf

theorem evaluateAsync_old (outer : Option Nat) {f : Nat} (hf : f < s.futures.length) :
    (s.evaluateAsync u caller line outer).2.futures[f]? = s.futures[f]? := by
  rw [evaluateAsync_refused hworker hs, futures_complete_ne (Nat.ne_of_gt hf)]
  exact allot_old s outer hf

theorem runLines_refused (rest : List Line) {outer : Nat} (hp : s.status outer = .pending)
    (ho : outer < s.futures.length) (number : Nat) :
    (s.runLines u caller outer number (line :: rest)).session.warnings =
        s.session.warnings ++ [(Note.unscheduled line .closed).entry] ∧
      (u.dispatch ≠ .queued →
        (s.runLines u caller outer number (line :: rest)).status outer = .finished false) := by
  have hwarnings := evaluateAsync_warnings hworker hs caller line (some outer)
  have hstatus := evaluateAsync_status hworker hs caller line (some outer)
  have hold := evaluateAsync_old hworker hs caller line (some outer) ho
  have hfuture : (s.evaluateAsync u caller line (some outer)).1 = s.futures.length := rfl
  unfold runLines
  rw [if_neg (by rw [hp]; decide)]
  cases he : s.evaluateAsync u caller line (some outer) with
  | mk g after =>
    rw [he] at hwarnings hstatus hold hfuture
    subst hfuture
    simp only [he] at hwarnings hstatus hold ⊢
    by_cases hq : u.dispatch = .queued
    · rw [if_pos hq] at hstatus
      rw [hstatus]
      exact ⟨hwarnings, fun hnot => absurd hq hnot⟩
    · rw [if_neg hq] at hstatus
      rw [hstatus]
      dsimp only
      refine ⟨?_, fun _ => ?_⟩
      · rw [settle_session]
        exact (Session.warnings_say after.session (.chainFailed line)).trans
          ((List.append_nil _).trans hwarnings)
      · have hlt : outer < after.futures.length := by
          by_contra hge
          rw [List.getElem?_eq_none (Nat.le_of_not_lt hge), List.getElem?_eq_getElem ho] at hold
          cases hold
        have hpending : after.status outer = .pending := (status_congr hold).trans hp
        exact status_settle_pending (s := after.say (.chainFailed line)) hpending hlt false

/-- A request is warned about once, and if results are delivered at once, it is false at once. -/
theorem request_refused {q : Request κ} {rest : List Line} (hq : q.lines = line :: rest) :
    (s.step u q.step).2.session.warnings =
        s.session.warnings ++ [(Note.unscheduled line .closed).entry] ∧
      (u.dispatch ≠ .queued → (s.step u q.step).2.status s.futures.length = .finished false) := by
  cases q with
  | one caller only =>
    obtain ⟨rfl, -⟩ := List.cons.inj hq
    refine ⟨evaluateAsync_warnings hworker hs caller only none, fun hdispatch => ?_⟩
    exact (evaluateAsync_status hworker hs caller only none).trans (if_neg hdispatch)
  | all caller lines =>
    obtain rfl : lines = line :: rest := hq
    have hp : (s.allot none).2.status s.futures.length = .pending := by
      rw [status, allot_new]
    exact runLines_refused (s := (s.allot none).2) hworker hs caller line rest hp
      (by simp [allot]) 1

end

theorem status_no_lines (u : Setup κ σ) (s : State κ σ) (caller : Caller κ) :
    (s.step u (.allAsync caller [])).2.status s.futures.length = .finished true := by
  have hp : (s.allot none).2.status s.futures.length = .pending := by
    rw [status, allot_new]
  exact status_settle_pending hp (by simp [allot]) true

end State

/-- After the steps the future `n` is false; or one of them cancelled it, or a line for its sake; or
its result is on its way and makes it false. -/
inductive Falls (u : Setup κ σ) (r : State κ σ) (steps : List (Step κ)) (n : Nat) : Prop where
  | settled (status : (r.run u steps).status n = .finished false)
  | cancelled {past later : List (Step κ)} {f : Nat}
      (status : (r.run u steps).status n = .cancelled)
      (cancellation : steps = past ++ .cancel f :: later) (owner : (r.run u past).owner f = n)
  | undelivered {i : Nat} {d : Delivery} (status : (r.run u steps).status n = .pending)
      (queued : (r.run u steps).deliveries[i]? = some d)
      (owner : (r.run u steps).owner d.future = n)
      (delivered : ((r.run u steps).step u (.dispatch i)).2.status n = .finished false)

/-- What is cancelled after some steps was cancelled before or by one of them. -/
theorem Lives.cancelled_by {u : Setup κ σ} {q : Request κ} {n : Nat} {s : State κ σ}
    (hm : Moment.Orderly ⟨s, []⟩) (hl : Lives q n ⟨s, []⟩) {steps : List (Step κ)}
    (hc : (s.run u steps).status n = .cancelled) : s.status n = .cancelled ∨
      ∃ past f later, steps = past ++ .cancel f :: later ∧ (s.run u past).owner f = n := by
  induction steps generalizing s with
  | nil => exact .inl hc
  | cons step rest ih =>
    have hreach := step_reaches (u := u) s step
    rcases ih (hreach.orderly hm) (hreach.lives hm hl) hc with hbefore | hby
    · by_cases hstep : ∀ f, step ≠ .cancel f
      · exact .inl (uncancelled_step u s hstep hbefore)
      · obtain ⟨f, hf⟩ := not_forall_not.mp hstep
        subst hf
        by_cases ho : s.owner f = n
        · exact .inr ⟨[], f, rest, rfl, ho⟩
        · -- the cancellation is for the sake of another future, and does not touch this one
          have hserves := withdraw_serves (u := u) hm f
          have hn : s.Stands n := hl.stands
          have hself : (s.withdraw u f).owner n = n := (hserves.owner n hn.1).trans hn.2
          have hrecord := hserves.record n (by rw [hself]; exact Ne.symm ho)
          exact .inl ((State.status_congr hrecord).symm.trans hbefore)
    · obtain ⟨past, f, later, rfl, ho⟩ := hby
      exact .inr ⟨step :: past, f, later, rfl, ho⟩

section
variable {q : Request κ} {n : Nat} {s : State κ σ}

/-- While nothing was evaluated for a request, the result that is on its way for it is false. -/
theorem Lives.queued_false (h : Lives q n ⟨s, []⟩) (htasks : s.tasks = [])
    (hnone : s.evaluations n = []) (hp : s.status n = .pending) :
    ∃ (passes : List (Pass κ)) (d : Delivery) (line : Line) (rest : List Line),
      Working q n s (Pass.lines passes) d.future line rest ∧
        s.waiting d.future = q.chain? n passes.length line rest ∧ d ∈ s.deliveries ∧
          d.result = false := by
  have hn : s.Stands n := h.stands
  obtain ⟨w, passes, g, line, rest, hduties, hholds, hwork, hwait, hqueue⟩ := h.queued hn.2 hp
  rcases hqueue with ⟨t, ht, -, -⟩ | ⟨d, ht, hd, rfl⟩
  · rw [State.tasksOf, htasks] at ht
    cases ht
  · have hw : w = .deliver d.future d.result (s.waiting d.future) := by
      rw [State.dutiesOf, ht, hd] at hduties
      exact (List.cons.inj hduties).1.symm
    subst hw
    obtain ⟨passes', line', rest', v, -, hv, -, hevents⟩ := hholds
    refine ⟨passes, d, line, rest, hwork, hwait, ?_, ?_⟩
    · have hmem : d ∈ s.deliveriesOf n := hd ▸ List.mem_singleton_self d
      exact List.mem_of_mem_filter hmem
    · by_contra hresult
      obtain ⟨asked, rfl⟩ := Verdict.evaluated_of_result (hv.trans (by simpa using hresult))
      rw [State.evaluations, hevents] at hnone
      simp [acts, Verdict.act, Act.evaluation?] at hnone

/-- To deliver false for the line of a request makes the request false. -/
theorem Working.deliver_false {u : Setup κ σ} {passed : List Line} {g : Nat} {line : Line}
    {rest : List Line} (hw : Working q n s passed g line rest) (hn : s.Stands n) {passes : Nat}
    (hwait : s.waiting g = q.chain? n passes line rest) (hp : s.status n = .pending) :
    (s.deliver u g false).status n = .finished false := by
  have hg : s.status g = .pending := by
    rcases hw.expected.1 with hg | hc
    · exact hg
    · exact absurd (hp.symm.trans (hw.cancelled hc)) (by simp)
  cases q with
  | one caller only =>
    have hgn : g = n := hw.eq_of_single
    subst hgn
    have hsettle : s.deliver u g false = s.settle g false := by
      simp [State.deliver, hg, hwait, Request.chain?]
    rw [hsettle]
    exact State.status_settle_pending hg hn.1 false
  | all caller lines =>
    have hgn : g ≠ n := hw.chained.mp rfl
    have hresume : s.deliver u g false =
        ((s.settle g false).say (.chainFailed line)).settle n false := by
      simp only [State.deliver, hg, hwait, Request.chain?]
      rfl
    have hserves : Serves n s (s.settle g false) := .settle hw.owner false
    have hpending : (s.settle g false).status n = .pending :=
      (State.status_congr (State.settle_ne hgn false)).trans hp
    rw [hresume]
    exact State.status_settle_pending (s := (s.settle g false).say (.chainFailed line)) hpending
      (hn.of_serves hserves).1 false

theorem Lives.falls {u : Setup κ σ} {r : State κ σ} {steps : List (Step κ)}
    (h : Lives q n ⟨r.run u steps, []⟩) (htasks : (r.run u steps).tasks = [])
    (hnone : (r.run u steps).evaluations n = []) (hq : q.lines ≠ [])
    (hcancelled : (r.run u steps).status n = .cancelled →
      ∃ past f later, steps = past ++ .cancel f :: later ∧ (r.run u past).owner f = n) :
    Falls u r steps n := by
  generalize hs : r.run u steps = s at h htasks hnone hcancelled
  cases hstatus : s.status n with
  | cancelled =>
    obtain ⟨past, f, later, hsplit, ho⟩ := hcancelled hstatus
    exact .cancelled (hs ▸ hstatus) hsplit ho
  | finished result =>
    cases result with
    | false => exact .settled (hs ▸ hstatus)
    | true =>
      have hall := h.evaluations_true hstatus
      rw [hnone] at hall
      exact absurd (List.map_eq_nil_iff.mp hall.symm) hq
  | pending =>
    have hn : s.Stands n := h.stands
    obtain ⟨passes, d, line, rest, hwork, hwait, hmem, hfalse⟩ :=
      h.queued_false htasks hnone hstatus
    obtain ⟨i, hi⟩ := List.getElem?_of_mem hmem
    -- the delivery is out of the queue, which is all that has changed
    let taken := { s with deliveries := s.deliveries.eraseIdx i }
    have halike : Alike n s taken := .of_futures rfl
    have htaken : Working q n taken (Pass.lines passes) d.future line rest :=
      halike.working hn.2 hwork
    have hdelivered : (s.step u (.dispatch i)).2.status n = .finished false := by
      change (s.runDelivery u i).2.status n = _
      unfold State.runDelivery
      rw [hi]
      change (taken.deliver u d.future d.result).status n = _
      rw [hfalse]
      exact htaken.deliver_false hn hwait hstatus
    subst hs
    exact .undelivered hstatus hi hwork.owner hdelivered

end

structure Rejects (u : Setup κ σ) (s : State κ σ) (q : Request κ) (line : Line) : Prop where
  answered : (s.step u q.step).1 = .future s.futures.length
  warned : (s.step u q.step).2.session.warnings =
    s.session.warnings ++ [(Note.unscheduled line .closed).entry]
  prompt : u.dispatch ≠ .queued → (s.step u q.step).2.status s.futures.length = .finished false
  falls : ∀ more, Falls u (s.step u q.step).2 more s.futures.length

structure Retired (u : Setup κ σ) (first s : State κ σ) : Prop where
  idle : s.tasks = []
  evaluated : evaluated s.history = evaluated first.history
  /-- Nobody is asked, unless for what is evaluated at once. -/
  unasked : ∀ step : Step κ, step.blocks = false → State.Still s (s.step u step).2
  rejects : ∀ q line rest, q.lines = line :: rest → Rejects u s q line
  empty : ∀ caller more, ((s.step u (.allAsync caller [])).2.run u more).status s.futures.length =
    .finished true
  /-- What is evaluated at once comes to what it comes to in any state, closed or not, that has the
  same session and cache. -/
  blocking : ∀ (step : Step κ) (r : State κ σ), step.blocks = true → r.session = s.session →
    r.cache = s.cache → r.step u step =
      ((s.step u step).1, r.having (s.step u step).2.session (s.step u step).2.cache)
  again : s.close u = s

theorem evaluations_new {u : Setup κ σ} {s t : State κ σ} (hm : Moment.Sound ⟨s, []⟩)
    (hreach : Reaches u ⟨s, []⟩ ⟨t, []⟩)
    (hsame : evaluated t.history = evaluated s.history) : t.evaluations s.futures.length = [] := by
  obtain ⟨new, hnew⟩ := hreach.history_isPrefix
  change s.history ++ new = t.history at hnew
  rw [← hnew, evaluated_append] at hsame
  have hquiet : evaluated new = [] := List.append_cancel_left (hsame.trans (List.append_nil _).symm)
  have hold : s.eventsOf s.futures.length = [] := eventsOf_new hm
  have hevents : t.eventsOf s.futures.length = new.filter fun e => e.owner = s.futures.length := by
    rw [State.eventsOf, ← hnew, List.filter_append, ← State.eventsOf, hold, List.nil_append]
  rw [State.evaluations, hevents]
  apply List.filterMap_eq_nil_iff.mpr
  intro e he
  exact List.filterMap_eq_nil_iff.mp hquiet e (List.mem_of_mem_filter he)

section
variable {u : Setup κ σ} (hworker : u.worker = .owned)
include hworker

theorem State.Shut.rejects {s : State κ σ} (hs : s.Shut) (hm : Moment.Orderly ⟨s, []⟩)
    {q : Request κ} {line : Line} {rest : List Line} (hq : q.lines = line :: rest) :
    Rejects u s q line := by
  obtain ⟨hwarned, hprompt⟩ := State.request_refused hworker hs.closed line hq
  have hanswer : (s.step u q.step).1 = .future s.futures.length := by cases q <;> rfl
  refine ⟨hanswer, hwarned, hprompt, fun more => ?_⟩
  have hopened := request_reaches (u := u) s q
  have hborn := hm.advance ((Move.open (u := u) s q).advances hm)
  have hlives := hopened.lives hborn
    (Moment.beside_nil (q.opened s) ▸ opened_lives hm.sound q)
  have horderly := hopened.orderly hborn
  have hmore := run_reaches (u := u) (s.step u q.step).2 more
  obtain ⟨hshut, hevaluated⟩ := State.run_shut hworker hs (q.step :: more)
  have hnone := evaluations_new hm.sound (run_reaches s (q.step :: more)) hevaluated
  refine (hmore.lives horderly hlives).falls hshut.tasks hnone ?_ fun hc => ?_
  · rw [hq]
    exact List.cons_ne_nil line rest
  · rcases hlives.cancelled_by horderly hc with hbefore | hby
    · have hstep : ∀ f, q.step ≠ .cancel f := by cases q <;> exact nofun
      have hnew := uncancelled_step u s hstep hbefore
      rw [State.status, List.getElem?_eq_none (Nat.le_refl _)] at hnew
      cases hnew
    · exact hby

theorem State.Shut.retired {first s : State κ σ} (hs : s.Shut) (hm : Moment.Orderly ⟨s, []⟩)
    (hevaluated : Conditions.Evaluator.evaluated s.history =
      Conditions.Evaluator.evaluated first.history) : Retired u first s where
  idle := hs.tasks
  evaluated := hevaluated
  unasked step hstep := (State.step_still hworker hs hstep).2
  rejects q line rest hq := hs.rejects hworker hm hq
  empty caller more := by
    have hempty := State.status_no_lines u s caller
    rw [(run_reaches _ more).keeps s.futures.length (by rw [hempty]; exact nofun), hempty]
  blocking step r hstep hsession hcache := by
    have hr : r.having s.session s.cache = r := by
      rw [← hsession, ← hcache]
      rfl
    rw [← State.step_having u r s hstep, hr]
  again := State.close_of_shut hworker hs

end

/-- An evaluator that owns its worker is retired once it was closed: from then on nothing is
evaluated on the worker, a request for lines is refused with a warning and comes out false, one for
no lines true, and all that is evaluated at once goes on as before. If the worker is from outside,
to close is of no effect: all that the evaluator does and answers is the same without it. -/
theorem closing_retires (u : Setup κ σ) (state : σ) :
    (u.worker = .owned → ∀ before after : List (Step κ),
      Retired u ((State.start u state).run u (before ++ [.close]))
        ((State.start u state).run u (before ++ .close :: after))) ∧
    (u.worker ≠ .owned → ∀ steps : List (Step κ),
      let s := (State.start u state).run u steps
      let t := (State.start u state).run u (steps.filter fun step => !step.closes)
      s = t.mark s.closed ∧ ∀ step, (s.step u step).1 = (t.step u step).1) := by
  refine ⟨fun hworker before after => ?_, fun hworker steps => ?_⟩
  · have hm := run_orderly u state (before ++ .close :: after)
    have hshut := State.close_shut hworker ((State.start u state).run u before)
    obtain ⟨hs, hevaluated⟩ := State.run_shut hworker hshut after
    have hfirst : (State.start u state).run u (before ++ [.close]) =
        ((State.start u state).run u before).close u := run_append u _ before [.close]
    have hrun : (State.start u state).run u (before ++ .close :: after) =
        (((State.start u state).run u before).close u).run u after :=
      run_append u _ before (.close :: after)
    rw [hrun] at hm ⊢
    rw [hfirst]
    exact hs.retired hworker hm hevaluated
  · intro s t
    obtain ⟨c, hc⟩ := State.run_mark hworker (State.start u state) false steps
    have hs : s = t.mark c := hc
    have hclosed : s.closed = c := by rw [hs]; rfl
    refine ⟨by rw [hclosed]; exact hs, fun step => ?_⟩
    rw [hs]
    exact State.answer_mark hworker t c step

/-- A line that is queued when its evaluator closes is still evaluated, a chain after that is not; a
worker from outside evaluates its line as if nobody had closed anything. -/
theorem closing_retires_behind_queued_line :
    let own : Setup Unit Unit := ⟨.verbatim, .owned, .queued, 8⟩
    let outside : Setup Unit Unit := ⟨.verbatim, .queued, .queued, 8⟩
    let caller : Caller Unit := ⟨(), none⟩
    let line : Line := some ['a', '=', '=', 'a']
    let first := (State.start own ()).run own ([.async caller line] ++ [.close])
    let later := (State.start own ()).run own
      ([.async caller line] ++ .close :: [.allAsync caller [line], .dispatch 1])
    let s := (State.start outside ()).run outside [.async caller line, .close, .runTask 0]
    let t := (State.start outside ()).run outside [.async caller line, .runTask 0]
    own.worker = .owned ∧ Retired own first later ∧ (evaluated later.history).length = 1 ∧
      later.status 1 = .finished false ∧ outside.worker ≠ .owned ∧ s = t.mark s.closed ∧
        (∀ step, (s.step outside step).1 = (t.step outside step).1) ∧
          (evaluated t.history).length = 1 := by
  intro own outside caller line first later s t
  obtain ⟨hsame, hanswers⟩ := (closing_retires outside ()).2 (by decide)
    [.async caller line, .close, .runTask 0]
  exact ⟨rfl, (closing_retires own ()).1 rfl [.async caller line]
    [.allAsync caller [line], .dispatch 1], by decide +kernel, by decide +kernel, by decide,
    hsame, hanswers, by decide +kernel⟩

end Conditions.Evaluator
