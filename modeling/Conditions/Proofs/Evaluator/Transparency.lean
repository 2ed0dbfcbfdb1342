import Conditions.Proofs.Evaluator.Record

/-!
# A cache that does not show

Every entry of the cache is the parse of its source, so evaluating a line comes to parsing it and
putting the condition to the resolver. Two evaluators that differ in the sizes of their caches
alone therefore stay twins: all that they answer, ask and say is the same.
-/

set_option autoImplicit false

namespace Conditions.Evaluator
open Expression Journal Placeholder

variable {κ σ : Type}

def Setup.resized (u : Setup κ σ) (size : Int) : Setup κ σ := { u with cacheSize := size }

section
variable (u : Setup κ σ) (size : Int) (s : State κ σ)

theorem evaluateAll_resized (caller : Caller κ) (lines : List Line) :
    s.evaluateAll (u.resized size) caller lines = s.evaluateAll u caller lines := by
  induction lines generalizing s with
  | nil => rfl
  | cons line rest ih =>
    have hline : s.evaluate (u.resized size) caller line = s.evaluate u caller line := rfl
    simp only [State.evaluateAll, hline, ih]

theorem runLines_resized (caller : Caller κ) (outer number : Nat) (lines : List Line) :
    s.runLines (u.resized size) caller outer number lines =
      s.runLines u caller outer number lines := by
  induction lines generalizing s number with
  | nil => rfl
  | cons line rest ih =>
    have hline : s.evaluateAsync (u.resized size) caller line (some outer) =
        s.evaluateAsync u caller line (some outer) := rfl
    simp only [State.runLines, hline, ih]

theorem resume_resized (chain : Chain κ) (status : Status) :
    s.resume (u.resized size) chain status = s.resume u chain status := by
  cases status with
  | finished result => cases result <;> simp only [State.resume, runLines_resized]
  | _ => rfl

theorem deliver_resized : State.deliver (u.resized size) = State.deliver u := by
  funext s f result
  simp only [State.deliver, resume_resized]

theorem runTask_resized (i : Nat) : s.runTask (u.resized size) i = s.runTask u i := by
  simp only [State.runTask, deliver_resized]
  rfl

theorem close_resized : s.close (u.resized size) = s.close u := by
  have htasks : ∀ (s : State κ σ) count,
      s.runTasks (u.resized size) count = s.runTasks u count := by
    intro s count
    induction count generalizing s with
    | zero => rfl
    | succ count ih => rw [State.runTasks, State.runTasks, runTask_resized, ih]
  simp only [State.close, htasks]
  rfl

/-- The size of the cache is looked at only when an evaluator is made. -/
theorem step_resized (step : Step κ) : s.step (u.resized size) step = s.step u step := by
  cases step with
  | evaluateAll caller lines => simp only [State.step, evaluateAll_resized]
  | allAsync caller lines => simp only [State.step, State.evaluateAllAsync, runLines_resized]
  | runTask i => simp only [State.step, runTask_resized]
  | dispatch i => simp only [State.step, State.runDelivery, deliver_resized]
  | cancel f => simp only [State.step, State.withdraw, resume_resized]
  | close => simp only [State.step, close_resized]
  | _ => rfl

theorem run_resized (steps : List (Step κ)) : s.run (u.resized size) steps = s.run u steps := by
  induction steps generalizing s with
  | nil => rfl
  | cons step rest ih => rw [State.run, State.run, step_resized, ih]

end

def Evaluation.ofLine (u : Setup κ σ) (caller : Caller κ) (line : Line) : Evaluation κ σ Bool :=
  match parse? line with
  | .error fault => throw (.malformed fault)
  | .ok c => do
    let result ← condition u.resolver caller.value c
    modify fun x => x.say (.evaluated line result)
    pure result

def Session.appraise (u : Setup κ σ) (caller : Caller κ) (line : Line) (x : Session κ σ) :
    Except Failure Bool × Session κ σ :=
  let (answer, y) := (Evaluation.ofLine u caller line).run.run
    { x with context := ⟨some (line.getD []), caller.label⟩ }
  (answer, { y with context := x.context })

section
variable {s : State κ σ} (h : s.cache.Coherent)
include h

theorem compile_eq_parse (line : Line) : ∃ cache : Cache, cache.Coherent ∧
    (s.compile line).2 = { s with cache } ∧
      (s.compile line).1.map Compiled.condition = parse? line := by
  obtain ⟨hcoherent, hanswer⟩ := State.compile_coherent h line
  refine ⟨_, hcoherent, ?_, hanswer⟩
  unfold State.compile
  cases present line <;> rfl

theorem evaluate_eq_appraise (u : Setup κ σ) (caller : Caller κ) (line : Line) :
    ∃ cache : Cache, cache.Coherent ∧ s.evaluate u caller line =
      ((s.session.appraise u caller line).1,
        { s with session := (s.session.appraise u caller line).2, cache }) := by
  have hinside : State.cache { s with session := { s.session with
    context := ⟨some (line.getD []), caller.label⟩ } } |>.Coherent := h
  obtain ⟨cache, hcoherent, hstate, hanswer⟩ := compile_eq_parse hinside line
  refine ⟨cache, hcoherent, ?_⟩
  unfold State.evaluate State.within State.assess Session.appraise Evaluation.ofLine
  dsimp only
  cases hc : State.compile { s with session := { s.session with
      context := ⟨some (line.getD []), caller.label⟩ } } line with
  | mk answer after =>
    rw [hc] at hstate hanswer
    change after = _ at hstate
    change answer.map Compiled.condition = _ at hanswer
    subst hstate
    rw [← hanswer]
    cases answer with
    | error fault => rfl
    | ok compiled =>
      simp only [Except.map, Evaluation.run_bind]
      cases (Evaluation.condition u.resolver caller.value compiled.condition).run.run
          { s.session with context := ⟨some (line.getD []), caller.label⟩ } with
      | mk outcome y => cases outcome <;> rfl

end

def Concurs {α β : Type} (related : β → β → Prop) (r r' : α × β) : Prop :=
  r'.1 = r.1 ∧ related r.2 r'.2

theorem Concurs.split {α β : Type} {related : β → β → Prop} {r r' : α × β}
    (h : Concurs related r r') : ∃ v x y, r = (v, x) ∧ r' = (v, y) ∧ related x y := by
  obtain ⟨v, x⟩ := r
  obtain ⟨v', y⟩ := r'
  obtain ⟨hanswer, hafter⟩ := h
  change v' = v at hanswer
  exact ⟨v, x, y, rfl, by rw [hanswer], hafter⟩

structure Session.Twins (a b : Noted) (x y : Session κ σ) : Prop where
  resolver : y.resolver = x.resolver
  asked : y.asked = x.asked
  context : y.context = x.context
  journal : ∃ rest, x.journal = a :: rest ∧ y.journal = b :: rest

namespace Session.Twins

variable {a b : Noted} {x y : Session κ σ}

theorem say (h : Twins a b x y) (n : Note) : Twins a b (x.say n) (y.say n) where
  resolver := h.resolver
  asked := h.asked
  context := h.context
  journal := by
    obtain ⟨rest, hx, hy⟩ := h.journal
    refine ⟨rest ++ [⟨n, x.context⟩], ?_, ?_⟩
    · rw [Session.say, hx]
      rfl
    · rw [Session.say, hy, h.context]
      rfl

theorem within (h : Twins a b x y) (context : Context) :
    Twins a b { x with context } { y with context } :=
  ⟨h.resolver, h.asked, rfl, h.journal⟩

end Session.Twins

namespace Evaluation

variable {α β : Type} {a b : Noted} {related : Session κ σ → Session κ σ → Prop}

def Respects (related : Session κ σ → Session κ σ → Prop) (e : Evaluation κ σ α) : Prop :=
  ∀ x y, related x y → Concurs related (e.run.run x) (e.run.run y)

theorem Respects.pure (v : α) : Respects related (Pure.pure v : Evaluation κ σ α) :=
  fun _ _ h => ⟨rfl, h⟩

theorem Respects.bind {e : Evaluation κ σ α} {k : α → Evaluation κ σ β} (he : Respects related e)
    (hk : ∀ v, Respects related (k v)) : Respects related (e >>= k) := by
  intro x y h
  obtain ⟨answer, x', y', hx, hy, hafter⟩ := (he x y h).split
  rw [run_bind, run_bind, hx, hy]
  cases answer with
  | ok v => exact hk v x' y' hafter
  | error failure => exact ⟨rfl, hafter⟩

theorem condition_respects {r : Resolver κ σ} {caller : κ}
    (hask : ∀ operand, Respects related (ask r caller operand)) (c : Condition) :
    Respects related (condition r caller c) :=
  holds_induction .pure (fun _ _ => .bind)
    (fun o => (hask o.left).bind fun _ => (hask o.right).bind fun _ => .pure _) c

def Blind (a b : Noted) (e : Evaluation κ σ α) : Prop := ∀ x y, Session.Twins a b x y →
  Concurs (Session.Twins a b) (e.run.run x) (e.run.run y)

theorem Blind.pure (v : α) : Blind a b (Pure.pure v : Evaluation κ σ α) := Respects.pure v

theorem Blind.bind {e : Evaluation κ σ α} {k : α → Evaluation κ σ β} (he : Blind a b e)
    (hk : ∀ v, Blind a b (k v)) : Blind a b (e >>= k) := Respects.bind he hk

theorem Blind.ask (r : Resolver κ σ) (caller : κ) (operand : Text) :
    Blind a b (ask r caller operand) := by
  intro x y h
  obtain ⟨rest, hx, hy⟩ := h.journal
  rw [run_ask, run_ask, h.resolver]
  refine ⟨rfl, rfl, ?_, h.context, ?_⟩
  · simp only [h.asked]
  · simp only [hx, hy, h.context]
    exact ⟨_, rfl, rfl⟩

theorem condition_blind (r : Resolver κ σ) (caller : κ) (c : Condition) :
    Blind a b (condition r caller c) :=
  condition_respects (Blind.ask r caller) c

theorem ofLine_blind (u : Setup κ σ) (caller : Caller κ) (line : Line) :
    Blind a b (ofLine u caller line) := by
  unfold ofLine
  cases parse? line with
  | error fault => exact fun x y h => ⟨rfl, h⟩
  | ok c =>
    have hsay : ∀ n : Note, Blind a b (modify fun x => x.say n : Evaluation κ σ PUnit) :=
      fun n x y h => ⟨rfl, h.say n⟩
    exact (condition_blind u.resolver caller.value c).bind fun result =>
      (hsay (.evaluated line result)).bind fun _ => .pure result

end Evaluation

theorem Session.Twins.appraise {a b : Noted} {x y : Session κ σ} (h : Twins a b x y)
    (u : Setup κ σ) (caller : Caller κ) (line : Line) :
    Concurs (Twins a b) (x.appraise u caller line) (y.appraise u caller line) := by
  obtain ⟨hanswer, hafter⟩ := Evaluation.ofLine_blind u caller line _ _
    (h.within ⟨some (line.getD []), caller.label⟩)
  refine ⟨hanswer, ?_⟩
  have hback := hafter.within x.context
  unfold Session.appraise
  rw [h.context]
  exact hback

def State.Twins (a b : Noted) (s t : State κ σ) : Prop :=
  ∃ session cache, t = { s with session, cache } ∧ Session.Twins a b s.session session ∧
    s.cache.Coherent ∧ Cache.Coherent cache

namespace State.Twins

variable {a b : Noted} {s t : State κ σ} {u : Setup κ σ}

theorem session (h : Twins a b s t) : Session.Twins a b s.session t.session := by
  obtain ⟨y, c, rfl, hy, -⟩ := h
  exact hy

/-- What is seen of a state without its session and its cache is seen of its twin. -/
theorem same {α : Type} (h : Twins a b s t) (view : State κ σ → α)
    (hview : ∀ s session cache, view { s with session, cache } = view s) : view t = view s := by
  obtain ⟨y, c, rfl, -⟩ := h
  exact hview s y c

theorem aside (h : Twins a b s t) (act : State κ σ → State κ σ)
    (hact : ∀ s session cache, act { s with session, cache } = { act s with session, cache }) :
    Twins a b (act s) (act t) := by
  obtain ⟨y, c, rfl, hy, hs, hc⟩ := h
  have hself : act s = { act s with session := s.session, cache := s.cache } :=
    hact s s.session s.cache
  refine ⟨y, c, hact s y c, ?_, ?_, hc⟩
  · rw [hself]
    exact hy
  · rw [hself]
    exact hs

theorem say (h : Twins a b s t) (n : Note) : Twins a b (s.say n) (t.say n) := by
  obtain ⟨y, c, rfl, hy, hs, hc⟩ := h
  exact ⟨y.say n, c, rfl, hy.say n, hs, hc⟩

theorem status (h : Twins a b s t) (f : Nat) : t.status f = s.status f :=
  h.same (fun s => s.status f) fun _ _ _ => rfl

theorem waiting (h : Twins a b s t) (f : Nat) : t.waiting f = s.waiting f :=
  h.same (fun s => s.waiting f) fun _ _ _ => rfl

theorem tell (h : Twins a b s t) (f : Nat) (act : Act κ) :
    Twins a b (s.tell f act) (t.tell f act) :=
  h.aside (fun s => s.tell f act) fun _ _ _ => rfl

theorem revise (h : Twins a b s t) (f : Nat) (change : Future κ → Future κ) :
    Twins a b (s.revise f change) (t.revise f change) :=
  h.aside (fun s => s.revise f change) fun _ _ _ => rfl

theorem settle (h : Twins a b s t) (f : Nat) (result : Bool) :
    Twins a b (s.settle f result) (t.settle f result) := by
  have hnotified : t.notified f = s.notified f := h.same (fun s => s.notified f) fun _ _ _ => rfl
  unfold State.settle
  rw [h.status, hnotified]
  cases s.status f with
  | pending => exact (h.revise f _).tell f _
  | cancelled =>
    cases s.notified f with
    | true => exact h.tell f _
    | false => exact (h.revise f _).tell f _
  | finished _ => exact h.tell f _

theorem cancel (h : Twins a b s t) (f : Nat) : Twins a b (s.cancel f) (t.cancel f) := by
  unfold State.cancel
  rw [h.status]
  split
  · exact h.revise f _
  · exact h

theorem compile (h : Twins a b s t) (line : Line) :
    (t.compile line).1.map Compiled.condition = (s.compile line).1.map Compiled.condition ∧
      Twins a b (s.compile line).2 (t.compile line).2 := by
  obtain ⟨y, c, rfl, hy, hs, hc⟩ := h
  obtain ⟨cs, hcs, hstate, hanswer⟩ := compile_eq_parse hs line
  obtain ⟨ct, hct, hstate', hanswer'⟩ :=
    compile_eq_parse (s := { s with session := y, cache := c }) hc line
  rw [hstate, hstate', hanswer, hanswer']
  exact ⟨rfl, y, ct, rfl, hy, hcs, hct⟩

theorem evaluate (h : Twins a b s t) (u : Setup κ σ) (caller : Caller κ) (line : Line) :
    Concurs (Twins a b) (s.evaluate u caller line) (t.evaluate u caller line) := by
  obtain ⟨y, c, rfl, hy, hs, hc⟩ := h
  obtain ⟨cs, hcs, heval⟩ := evaluate_eq_appraise hs u caller line
  obtain ⟨ct, hct, heval'⟩ :=
    evaluate_eq_appraise (s := { s with session := y, cache := c }) hc u caller line
  obtain ⟨hanswer, hafter⟩ := hy.appraise u caller line
  rw [heval, heval']
  exact ⟨hanswer, _, ct, rfl, hafter, hcs, hct⟩

theorem evaluateAll (h : Twins a b s t) (u : Setup κ σ) (caller : Caller κ) (lines : List Line) :
    Concurs (Twins a b) (s.evaluateAll u caller lines) (t.evaluateAll u caller lines) := by
  induction lines generalizing s t with
  | nil => exact ⟨rfl, h⟩
  | cons line rest ih =>
    obtain ⟨answer, s', t', hs, ht, hafter⟩ := (h.evaluate u caller line).split
    unfold State.evaluateAll
    rw [hs, ht]
    cases answer with
    | ok result =>
      cases result with
      | true => exact ih hafter
      | false => exact ⟨rfl, hafter.say _⟩
    | error failure =>
      cases failure with
      | malformed fault => exact ⟨rfl, hafter.say _⟩
      | raised message => exact ⟨rfl, hafter⟩
      | unknownNode kind => exact ⟨rfl, hafter⟩

theorem attempt (h : Twins a b s t) (u : Setup κ σ) (k : Task κ) :
    Concurs (Twins a b) (s.attempt u k) (t.attempt u k) := by
  obtain ⟨answer, s', t', hs, ht, hafter⟩ := (h.evaluate u k.caller k.line).split
  unfold State.attempt
  rw [hs, ht]
  refine ⟨rfl, ?_⟩
  dsimp only
  rw [h.session.asked, hafter.session.asked]
  exact hafter.tell _ _

/-! Work on twins leaves twins, if it does so with the way in which results are settled. -/

section
variable {act : State κ σ → Nat → Bool → State κ σ}
  (hact : ∀ {s t : State κ σ}, Twins a b s t → ∀ f r, Twins a b (act s f r) (act t f r))
include hact

theorem complete (h : Twins a b s t) (f : Nat) (result : Bool) :
    Twins a b (s.complete u act f result) (t.complete u act f result) := by
  unfold State.complete
  cases u.dispatch with
  | immediate => exact hact h f result
  | queued =>
    exact h.aside (fun s => { s with deliveries := s.deliveries ++ [⟨f, result⟩] }) fun _ _ _ => rfl
  | dead => exact hact (h.say _) f result

theorem perform (h : Twins a b s t) (k : Task κ) :
    Twins a b (s.perform u act k) (t.perform u act k) := by
  obtain ⟨answer, s', t', hs, ht, hafter⟩ := (h.attempt u k).split
  unfold State.perform
  rw [h.status, hs, ht]
  split
  · exact h
  · cases answer with
    | ok result => exact complete hact hafter k.future result
    | error failure => exact complete hact (hafter.say _) k.future false

end

theorem submit (h : Twins a b s t) (k : Task κ) : Twins a b (s.submit u k) (t.submit u k) := by
  have hrefusal : t.refusal? u = s.refusal? u := h.same (fun s => s.refusal? u) fun _ _ _ => rfl
  have hqueue := h.aside (fun s => { s with tasks := s.tasks ++ [k] }) fun _ _ _ => rfl
  unfold State.submit
  rw [hrefusal]
  cases s.refusal? u with
  | some refusal => exact complete Twins.settle ((h.tell _ _).say _) k.future false
  | none =>
    cases u.worker with
    | immediate => exact perform Twins.settle h k
    | queued => exact hqueue
    | owned => exact hqueue

theorem allot (h : Twins a b s t) (outer : Option Nat) :
    Concurs (Twins a b) (s.allot outer) (t.allot outer) :=
  ⟨h.same (fun s => (s.allot outer).1) fun _ _ _ => rfl,
    h.aside (fun s => (s.allot outer).2) fun _ _ _ => rfl⟩

theorem evaluateAsync (h : Twins a b s t) (u : Setup κ σ) (caller : Caller κ) (line : Line)
    (outer : Option Nat) :
    Concurs (Twins a b) (s.evaluateAsync u caller line outer)
      (t.evaluateAsync u caller line outer) := by
  obtain ⟨hfuture, hallot⟩ := h.allot outer
  change t.futures.length = s.futures.length at hfuture
  refine ⟨hfuture, ?_⟩
  change Twins a b (State.submit u ((s.allot outer).2.tell s.futures.length _) _)
    (State.submit u ((t.allot outer).2.tell t.futures.length _) _)
  rw [hfuture]
  exact (hallot.tell _ _).submit _

theorem runLines (h : Twins a b s t) (caller : Caller κ) (outer number : Nat)
    (lines : List Line) : Twins a b (s.runLines u caller outer number lines)
      (t.runLines u caller outer number lines) := by
  induction lines generalizing s t number with
  | nil =>
    unfold State.runLines
    rw [h.status]
    split
    · exact h.say _
    · exact h.settle outer true
  | cons line rest ih =>
    obtain ⟨g, s', t', hs, ht, hafter⟩ := (h.evaluateAsync u caller line (some outer)).split
    unfold State.runLines
    rw [h.status]
    split
    · exact h.say _
    · dsimp only
      rw [hs, ht]
      dsimp only
      rw [hafter.status]
      cases s'.status g with
      | pending => exact hafter.revise _ _
      | cancelled => exact hafter.cancel outer
      | finished result =>
        cases result with
        | true => exact ih hafter (number + 1)
        | false => exact (hafter.say _).settle outer false

theorem evaluateAllAsync (h : Twins a b s t) (u : Setup κ σ) (caller : Caller κ)
    (lines : List Line) :
    Concurs (Twins a b) (s.evaluateAllAsync u caller lines)
      (t.evaluateAllAsync u caller lines) := by
  obtain ⟨hfuture, hallot⟩ := h.allot none
  refine ⟨hfuture, ?_⟩
  unfold State.evaluateAllAsync
  dsimp only
  rw [hfuture]
  split
  · exact hallot.settle _ true
  · exact hallot.runLines _ _ _ _

theorem resume (h : Twins a b s t) (chain : Chain κ) (status : Status) :
    Twins a b (s.resume u chain status) (t.resume u chain status) := by
  cases status with
  | pending => exact h
  | cancelled => exact h.cancel chain.outer
  | finished result =>
    cases result with
    | true => exact h.runLines _ _ _ _
    | false => exact (h.say _).settle chain.outer false

theorem deliver (h : Twins a b s t) (f : Nat) (result : Bool) :
    Twins a b (s.deliver u f result) (t.deliver u f result) := by
  unfold State.deliver
  rw [h.status, h.waiting]
  split
  · exact (h.settle f result).resume _ _
  · exact h.settle f result

theorem withdraw (h : Twins a b s t) (f : Nat) :
    Twins a b (s.withdraw u f) (t.withdraw u f) := by
  unfold State.withdraw
  rw [h.status, h.waiting]
  split
  · exact (h.cancel f).resume _ _
  · exact h.cancel f

theorem runTask (h : Twins a b s t) (i : Nat) :
    Concurs (Twins a b) (s.runTask u i) (t.runTask u i) := by
  have hat : t.tasks[i]? = s.tasks[i]? := h.same (fun s => s.tasks[i]?) fun _ _ _ => rfl
  have htaken := h.aside (fun s => { s with tasks := s.tasks.eraseIdx i }) fun _ _ _ => rfl
  unfold State.runTask
  rw [hat]
  cases s.tasks[i]? with
  | none => exact ⟨rfl, h⟩
  | some k => exact ⟨rfl, perform Twins.deliver htaken k⟩

theorem runDelivery (h : Twins a b s t) (i : Nat) :
    Concurs (Twins a b) (s.runDelivery u i) (t.runDelivery u i) := by
  have hat : t.deliveries[i]? = s.deliveries[i]? :=
    h.same (fun s => s.deliveries[i]?) fun _ _ _ => rfl
  have htaken := h.aside (fun s => { s with deliveries := s.deliveries.eraseIdx i })
    fun _ _ _ => rfl
  unfold State.runDelivery
  rw [hat]
  cases s.deliveries[i]? with
  | none => exact ⟨rfl, h⟩
  | some d => exact ⟨rfl, deliver htaken d.future d.result⟩

theorem runTasks (h : Twins a b s t) (count : Nat) :
    Twins a b (s.runTasks u count) (t.runTasks u count) := by
  induction count generalizing s t with
  | zero => exact h
  | succ count ih => exact ih (h.runTask 0).2

theorem close (h : Twins a b s t) : Twins a b (s.close u) (t.close u) := by
  have hshut := h.aside (fun s => { s with closed := true }) fun _ _ _ => rfl
  have htasks : t.tasks.length = s.tasks.length := h.same (fun s => s.tasks.length) fun _ _ _ => rfl
  have hrun : Twins a b (State.runTasks u { s with closed := true } s.tasks.length)
      (State.runTasks u { t with closed := true } t.tasks.length) := by
    rw [htasks]
    exact hshut.runTasks _
  unfold State.close
  split
  · exact hrun
  · exact hshut

end State.Twins

def Answer.anonymous : Answer → Answer
  | .compiled answer => .compiled (answer.map fun c => { c with serial := 0 })
  | answer => answer

theorem Answer.anonymous_compiled {r r' : Except Fault Compiled}
    (h : r'.map Compiled.condition = r.map Compiled.condition) :
    Answer.anonymous (.compiled r') = Answer.anonymous (.compiled r) := by
  cases r <;> cases r' <;> simp_all [Answer.anonymous, Except.map]

namespace State.Twins

variable {a b : Noted} {s t : State κ σ} {u : Setup κ σ}

theorem step (h : Twins a b s t) (u : Setup κ σ) (step : Step κ) :
    (t.step u step).1.anonymous = (s.step u step).1.anonymous ∧
      Twins a b (s.step u step).2 (t.step u step).2 := by
  cases step with
  | parse line => exact ⟨Answer.anonymous_compiled (h.compile line).1, (h.compile line).2⟩
  | evaluate caller line =>
    obtain ⟨hanswer, hafter⟩ := h.evaluate u caller line
    exact ⟨congrArg (Answer.anonymous <| .result ·) hanswer, hafter⟩
  | evaluateAll caller lines =>
    obtain ⟨hanswer, hafter⟩ := h.evaluateAll u caller lines
    exact ⟨congrArg (Answer.anonymous <| .result ·) hanswer, hafter⟩
  | async caller line =>
    obtain ⟨hanswer, hafter⟩ := h.evaluateAsync u caller line none
    exact ⟨congrArg (Answer.anonymous <| .future ·) hanswer, hafter⟩
  | allAsync caller lines =>
    obtain ⟨hanswer, hafter⟩ := h.evaluateAllAsync u caller lines
    exact ⟨congrArg (Answer.anonymous <| .future ·) hanswer, hafter⟩
  | runTask i =>
    obtain ⟨hanswer, hafter⟩ := h.runTask (u := u) i
    exact ⟨congrArg (Answer.anonymous <| .ran ·) hanswer, hafter⟩
  | dispatch i =>
    obtain ⟨hanswer, hafter⟩ := h.runDelivery (u := u) i
    exact ⟨congrArg (Answer.anonymous <| .ran ·) hanswer, hafter⟩
  | cancel f =>
    have hafter := h.withdraw (u := u) f
    refine ⟨?_, hafter⟩
    change Answer.anonymous (.cancelled ((t.withdraw u f).status f == .cancelled)) = _
    rw [hafter.status]
    rfl
  | refuse refusing => exact ⟨rfl, h.aside (fun s => { s with refusing }) fun _ _ _ => rfl⟩
  | close => exact ⟨rfl, h.close⟩

theorem run (h : Twins a b s t) (u : Setup κ σ) (steps : List (Step κ)) :
    Twins a b (s.run u steps) (t.run u steps) := by
  induction steps generalizing s t with
  | nil => exact h
  | cons step rest ih => exact ih (h.step u step).2

end State.Twins

structure State.Alike (a b : Noted) (s t : State κ σ) : Prop where
  futures : t.futures = s.futures
  tasks : t.tasks = s.tasks
  deliveries : t.deliveries = s.deliveries
  closed : t.closed = s.closed
  refusing : t.refusing = s.refusing
  history : t.history = s.history
  session : Session.Twins a b s.session t.session

theorem State.Twins.alike {a b : Noted} {s t : State κ σ} (h : Twins a b s t) :
    Alike a b s t where
  futures := h.same State.futures fun _ _ _ => rfl
  tasks := h.same State.tasks fun _ _ _ => rfl
  deliveries := h.same State.deliveries fun _ _ _ => rfl
  closed := h.same State.closed fun _ _ _ => rfl
  refusing := h.same State.refusing fun _ _ _ => rfl
  history := h.same State.history fun _ _ _ => rfl
  session := h.session

theorem State.start_twins (u : Setup κ σ) (size size' : Int) (state : σ) :
    Twins ⟨.created size (u.worker == .owned), .none⟩ ⟨.created size' (u.worker == .owned), .none⟩
      (start (u.resized size) state) (start (u.resized size') state) :=
  ⟨_, _, rfl, ⟨rfl, rfl, rfl, [], rfl, rfl⟩, Cache.coherent_empty _, Cache.coherent_empty _⟩

/-- A source that cannot be parsed fails whenever it is compiled, and is not kept. -/
theorem compile_malformed {s : State κ σ} (h : s.cache.Coherent) {line : Line} {fault : Fault}
    (hparse : parse? line = .error fault) : s.compile line = (.error fault, s) := by
  cases line with
  | none =>
    cases hparse
    rfl
  | some source =>
    change parse source = .error fault at hparse
    have hfresh : s.cache.held.lookup source = none := by
      cases hlookup : s.cache.held.lookup source with
      | none => rfl
      | some compiled =>
        have hheld := h _ (Dictionary.mem_of_find? hlookup)
        rw [hparse] at hheld
        cases hheld
    change ((s.cache.compile source).1, { s with cache := (s.cache.compile source).2 }) = _
    rw [Cache.compile, hfresh, Cache.make, hparse]

/-- Whatever its size, the cache shows in the first entry of the journal alone: step by step the
evaluator answers, asks, settles and says what one without a cache does. What cannot be parsed
fails anew each time, and what can is put to the resolver anew for each caller. -/
theorem cache_unobservable (u : Setup κ σ) (size : Int) (state : σ) (steps : List (Step κ)) :
    let cached := u.resized size
    let plain := u.resized 0
    let s := (State.start cached state).run cached steps
    let t := (State.start plain state).run plain steps
    (∀ step, (t.step plain step).1.anonymous = (s.step cached step).1.anonymous) ∧
      State.Alike ⟨.created size (u.worker == .owned), .none⟩
        ⟨.created 0 (u.worker == .owned), .none⟩ s t ∧
      (∀ line, (s.compile line).1.map Compiled.condition = parse? line) ∧
      (∀ line fault, parse? line = .error fault → s.compile line = (.error fault, s)) ∧
      ∀ caller line, (s.evaluate cached caller line).1 = (s.session.appraise u caller line).1 ∧
        (s.evaluate cached caller line).2.session = (s.session.appraise u caller line).2 := by
  intro cached plain s t
  have htwins : State.Twins ⟨.created size (u.worker == .owned), .none⟩
      ⟨.created 0 (u.worker == .owned), .none⟩ s t := by
    have hs : s = (State.start cached state).run u steps := run_resized u size _ steps
    have ht : t = (State.start plain state).run u steps := run_resized u 0 _ steps
    rw [hs, ht]
    exact (State.start_twins u size 0 state).run u steps
  have hcoherent : s.cache.Coherent := by
    obtain ⟨_, _, -, -, hs, -⟩ := htwins
    exact hs
  refine ⟨fun step => ?_, htwins.alike, fun line => ?_, fun line fault => ?_,
    fun caller line => ?_⟩
  · rw [step_resized, step_resized]
    exact (htwins.step u step).1
  · obtain ⟨_, -, -, hanswer⟩ := compile_eq_parse hcoherent line
    exact hanswer
  · exact compile_malformed hcoherent
  · obtain ⟨_, -, heval⟩ := evaluate_eq_appraise hcoherent u caller line
    have hsame : s.evaluate cached caller line = s.evaluate u caller line := rfl
    rw [hsame, heval]
    exact ⟨rfl, rfl⟩

end Conditions.Evaluator
