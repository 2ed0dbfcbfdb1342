import Conditions.Proofs.Evaluator.Transparency

/-!
# Waiting for an evaluator's own worker

An evaluator that delivers at once and runs its own queued tasks one after the other has one task in
its queue at any time. When as many tasks have been run as there are lines, the future of the lines
tells whether all of them hold.
-/

set_option autoImplicit false

namespace Conditions.Evaluator
open Expression State

variable {κ σ : Type}

structure Quiet (s s' : State κ σ) : Prop where
  futures : s'.futures = s.futures
  tasks : s'.tasks = s.tasks
  closed : s'.closed = s.closed
  cache : s'.cache.Coherent

structure Waits (s : State κ σ) (caller : Caller κ) (outer step number : Nat) (line : Line)
    (rest : List Line) : Prop where
  closed : s.closed = false
  cache : s.cache.Coherent
  tasks : s.tasks = [⟨caller, line, step⟩]
  pending : s.status step = .pending
  bound : step < s.futures.length
  waiting : s.waiting step = some ⟨caller, line, number, rest, outer⟩
  unsettled : s.status outer = .pending
  outerBound : outer < s.futures.length
  other : step ≠ outer

structure Rests (s : State κ σ) (outer : Nat) (result : Bool) : Prop where
  tasks : s.tasks = []
  settled : s.status outer = .finished result

theorem Rests.settle {s : State κ σ} {outer : Nat} (htasks : s.tasks = [])
    (houter : s.status outer = .pending) (hbound : outer < s.futures.length) (result : Bool) :
    Rests (s.settle outer result) outer result :=
  ⟨by rw [tasks_settle, htasks], status_settle_pending houter hbound result⟩

theorem Rests.runTasks {u : Setup κ σ} {s : State κ σ} {outer : Nat} {result : Bool}
    (h : Rests s outer result) (count : Nat) : s.runTasks u count = s := by
  have htask : s.runTask u 0 = (false, s) := by
    unfold State.runTask
    rw [h.tasks]
    rfl
  induction count with
  | zero => rfl
  | succ count ih => rw [State.runTasks, htask, ih]

section
variable {u : Setup κ σ} (hworker : u.worker = .owned) (hdispatch : u.dispatch = .immediate)
  {caller : Caller κ} {verdict : Line → Bool}
  (hverdict : ∀ b : State κ σ, b.cache.Coherent → ∀ line,
    (b.evaluate u caller line).1.toOption.getD false = verdict line)

include hworker in
theorem evaluateAsync_owned {s : State κ σ} (hclosed : s.closed = false) (line : Line)
    (outer : Option Nat) : s.evaluateAsync u caller line outer =
      (s.futures.length, { (s.allot outer).2.tell s.futures.length (.submitted line) with
        tasks := s.tasks ++ [⟨caller, line, s.futures.length⟩] }) := by
  have hrefusal : ((s.allot outer).2.tell s.futures.length (.submitted line)).refusal? u = none := by
    unfold State.refusal?
    rw [hworker]
    change (if s.closed = true then _ else _) = _
    rw [hclosed]
    rfl
  unfold State.evaluateAsync State.submit
  simp only [State.allot] at hrefusal ⊢
  rw [hrefusal, hworker]
  rfl

include hworker in
theorem runLines_waits {s : State κ σ} {outer : Nat} (hclosed : s.closed = false)
    (hcache : s.cache.Coherent) (htasks : s.tasks = []) (houter : s.status outer = .pending)
    (hbound : outer < s.futures.length) (number : Nat) (line : Line) (rest : List Line) :
    Waits (s.runLines u caller outer number (line :: rest)) caller outer s.futures.length
      (number + 1) line rest := by
  have hne : s.futures.length ≠ outer := by omega
  generalize hs' : ({ (s.allot (some outer)).2.tell s.futures.length (.submitted line) with
    tasks := s.tasks ++ [⟨caller, line, s.futures.length⟩] } : State κ σ) = s'
  have hfutures : s'.futures = s.futures ++ [⟨.pending, false, some outer, none⟩] := by
    rw [← hs']
    rfl
  have hstep : s'.status s.futures.length = .pending := by simp [State.status, hfutures]
  have hlines : s.runLines u caller outer number (line :: rest) =
      s'.await s.futures.length ⟨caller, line, number + 1, rest, outer⟩ := by
    unfold State.runLines
    rw [if_neg (by rw [houter]; decide)]
    simp only [evaluateAsync_owned hworker hclosed, hs', hstep]
  rw [hlines]
  have hkept : (s'.await s.futures.length ⟨caller, line, number + 1, rest, outer⟩).futures[outer]? =
      s.futures[outer]? := by
    rw [State.await, revise_ne hne, hfutures, List.getElem?_append_left hbound]
  exact
    { closed := by rw [← hs']; exact hclosed
      cache := by rw [← hs']; exact hcache
      tasks := by rw [← hs']; simp [State.await, State.revise, htasks]
      pending := (status_revise (by intro _; rfl) _ _).trans hstep
      bound := by simp [State.await, hfutures]
      waiting := by rw [State.waiting, State.await, revise_self, hfutures]; simp
      unsettled := (status_congr hkept).trans houter
      outerBound := by simp [State.await, hfutures]; omega
      other := hne }

include hdispatch hverdict in
/-- Running a task comes to delivering the verdict on its line. -/
theorem perform_delivers {s : State κ σ} {step : Nat} (hcache : s.cache.Coherent)
    (hstep : s.status step = .pending) (line : Line) :
    ∃ s', Quiet s s' ∧ s.perform u (deliver u) ⟨caller, line, step⟩ =
      s'.deliver u step (verdict line) := by
  obtain ⟨cache, hcache', heval⟩ := evaluate_eq_appraise hcache u caller line
  have hanswer := hverdict s hcache line
  unfold State.perform
  rw [if_neg (by rw [hstep]; decide)]
  unfold State.attempt State.complete
  rw [hdispatch]
  rw [heval] at hanswer ⊢
  dsimp only at hanswer ⊢
  cases hoc : (s.session.appraise u caller line).1 with
  | ok result =>
    rw [hoc] at hanswer
    rw [← hanswer]
    refine ⟨_, ?_, rfl⟩
    exact ⟨rfl, rfl, rfl, hcache'⟩
  | error failure =>
    rw [hoc] at hanswer
    rw [← hanswer]
    refine ⟨_, ?_, rfl⟩
    exact ⟨rfl, rfl, rfl, hcache'⟩

inductive Turn (s : State κ σ) (caller : Caller κ) (outer : Nat) (verdict : Line → Bool)
    (line : Line) : List Line → Prop where
  | failed {rest : List Line} (hline : verdict line = false) (rests : Rests s outer false) :
      Turn s caller outer verdict line rest
  | passed (hline : verdict line = true) (rests : Rests s outer true) :
      Turn s caller outer verdict line []
  | onward {step number : Nat} {next : Line} {rest : List Line} (hline : verdict line = true)
      (waits : Waits s caller outer step number next rest) :
      Turn s caller outer verdict line (next :: rest)

include hworker hdispatch hverdict in
theorem Waits.turn {s : State κ σ} {outer step number : Nat} {line : Line} {rest : List Line}
    (h : Waits s caller outer step number line rest) :
    Turn (s.runTask u 0).2 caller outer verdict line rest := by
  obtain ⟨s', hquiet, hperform⟩ := perform_delivers (s := { s with tasks := [] }) hdispatch
    hverdict h.cache h.pending line
  have htask : (s.runTask u 0).2 = s'.deliver u step (verdict line) := by
    rw [← hperform]
    unfold State.runTask
    rw [h.tasks]
    rfl
  have hsame : ∀ f : Nat, s'.futures[f]? = s.futures[f]? := fun f =>
    congrArg (fun futures : List (Future κ) => futures[f]?) hquiet.futures
  have hdeliver : ∀ result, s'.deliver u step result =
      (s'.settle step result).resume u ⟨caller, line, number, rest, outer⟩ (.finished result) := by
    intro result
    unfold State.deliver
    rw [(status_congr (hsame step)).trans h.pending, (waiting_congr (hsame step)).trans h.waiting]
  have houter : ∀ result, (s'.settle step result).status outer = .pending := fun result =>
    (status_congr ((settle_ne h.other result).trans (hsame outer))).trans h.unsettled
  have hbound : ∀ result, outer < (s'.settle step result).futures.length := by
    intro result
    obtain ⟨change, act, he, -⟩ := s'.settle_eq step result
    rw [he]
    change outer < (s'.revise step change).futures.length
    rw [revise_length, hquiet.futures]
    exact h.outerBound
  have htasks : ∀ result, (s'.settle step result).tasks = [] := fun result => by
    rw [tasks_settle]
    exact hquiet.tasks
  rw [htask, hdeliver]
  cases hline : verdict line with
  | false =>
    exact .failed hline (Rests.settle (s := (s'.settle step false).say (.chainFailed line))
      (htasks false) (houter false) (hbound false) false)
  | true =>
    change Turn ((s'.settle step true).runLines u caller outer number rest) _ _ _ _ _
    cases rest with
    | nil =>
      unfold State.runLines
      rw [if_neg (by rw [houter]; decide)]
      exact .passed hline (Rests.settle (htasks true) (houter true) (hbound true) true)
    | cons next rest =>
      have hclosed : (s'.settle step true).closed = false := by
        obtain ⟨change, act, he, -⟩ := s'.settle_eq step true
        rw [he]
        exact hquiet.closed.trans h.closed
      have hcache : (s'.settle step true).cache.Coherent := by
        obtain ⟨change, act, he, -⟩ := s'.settle_eq step true
        rw [he]
        exact hquiet.cache
      exact .onward hline (runLines_waits hworker hclosed hcache (htasks true) (houter true)
        (hbound true) number next rest)

include hworker hdispatch hverdict in
/-- A chain is done when as many tasks have been run as it has lines. -/
theorem Waits.done {s : State κ σ} {outer step number : Nat} {line : Line} {rest : List Line}
    (h : Waits s caller outer step number line rest) {count : Nat} (hcount : rest.length < count) :
    Rests (s.runTasks u count) outer ((line :: rest).all verdict) := by
  induction count generalizing s step number line rest with
  | zero => cases hcount
  | succ count ih =>
    rw [State.runTasks]
    cases h.turn hworker hdispatch hverdict with
    | failed hline hrests =>
      rw [hrests.runTasks, List.all_cons, hline]
      exact hrests
    | passed hline hrests =>
      rw [hrests.runTasks, List.all_cons, hline]
      exact hrests
    | onward hline hwaits =>
      rw [List.all_cons, hline]
      exact ih hwaits (by simpa using hcount)

include hworker hdispatch hverdict in
/-- The future of several lines tells whether all of them hold. -/
theorem evaluateAllAsync_done {s : State κ σ} (hclosed : s.closed = false)
    (hcache : s.cache.Coherent) (htasks : s.tasks = []) (lines : List Line) {count : Nat}
    (hcount : lines.length < count) :
    Rests ((s.evaluateAllAsync u caller lines).2.runTasks u count)
      (s.evaluateAllAsync u caller lines).1 (lines.all verdict) := by
  have houter : (s.allot none).2.status s.futures.length = .pending := by
    simp [State.status, State.allot]
  have hbound : s.futures.length < (s.allot none).2.futures.length := by simp [State.allot]
  cases lines with
  | nil =>
    have hrests : Rests ((s.allot none).2.settle s.futures.length true) s.futures.length true :=
      Rests.settle (s := (s.allot none).2) htasks houter hbound true
    change Rests (((s.allot none).2.settle s.futures.length true).runTasks u count) _ _
    rw [hrests.runTasks]
    exact hrests
  | cons line rest =>
    have hwaits : Waits ((s.allot none).2.runLines u caller s.futures.length 1 (line :: rest))
        caller s.futures.length _ _ line rest :=
      runLines_waits (s := (s.allot none).2) hworker hclosed hcache htasks houter hbound 1 line rest
    exact hwaits.done hworker hdispatch hverdict (Nat.lt_of_succ_lt hcount)

include hworker hdispatch hverdict in
theorem evaluateAsync_done {s : State κ σ} (hclosed : s.closed = false)
    (hcache : s.cache.Coherent) (htasks : s.tasks = []) (line : Line) (count : Nat) :
    Rests ((s.evaluateAsync u caller line).2.runTasks u (count + 1))
      (s.evaluateAsync u caller line).1 (verdict line) := by
  rw [evaluateAsync_owned hworker hclosed, htasks, State.runTasks]
  generalize hsubmitted : (s.allot none).2.tell s.futures.length (.submitted line) = submitted
  have hfutures : submitted.futures = s.futures ++ [⟨.pending, false, none, none⟩] := by
    rw [← hsubmitted]
    rfl
  have hcache' : submitted.cache.Coherent := by rw [← hsubmitted]; exact hcache
  have htasks' : submitted.tasks = [] := by rw [← hsubmitted]; exact htasks
  have hpending : submitted.status s.futures.length = .pending := by
    simp [State.status, hfutures]
  obtain ⟨s', hquiet, hperform⟩ := perform_delivers hdispatch hverdict hcache' hpending line
  have hsame : s'.futures[s.futures.length]? = submitted.futures[s.futures.length]? :=
    congrArg (fun futures : List (Future κ) => futures[s.futures.length]?) hquiet.futures
  have hwaiting : s'.waiting s.futures.length = none := by
    rw [waiting_congr hsame]
    simp [State.waiting, hfutures]
  have hdeliver : s'.deliver u s.futures.length (verdict line) =
      s'.settle s.futures.length (verdict line) := by
    unfold State.deliver
    rw [hwaiting]
    split <;> simp_all
  have hrests : Rests (s'.settle s.futures.length (verdict line)) s.futures.length (verdict line) :=
    Rests.settle (hquiet.tasks.trans htasks') ((status_congr hsame).trans hpending)
      (by simp [hquiet.futures, hfutures]) _
  have htask : (State.runTask u { submitted with
      tasks := [] ++ [⟨caller, line, s.futures.length⟩] } 0).2 =
        s'.settle s.futures.length (verdict line) := by
    rw [← hdeliver, ← hperform]
    change State.perform u (deliver u) { submitted with tasks := [] } _ = _
    rw [← htasks']
  rw [htask, hrests.runTasks]
  exact hrests

end

end Conditions.Evaluator
