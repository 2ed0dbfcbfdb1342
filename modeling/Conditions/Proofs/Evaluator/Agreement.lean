import Conditions.Proofs.Evaluator.Gate

/-!
# Evaluating on a worker and at once

Once nothing is queued any more, the future of a request holds what evaluating its lines at once
answers, and the same questions were asked for it, whatever else went on meanwhile.
-/

set_option autoImplicit false

namespace Conditions.Evaluator
open Expression

variable {κ σ : Type}

def Request.blocking : Request κ → Step κ
  | .one caller line => .evaluate caller line
  | .all caller lines => .evaluateAll caller lines

def Act.questions : Act κ → List (κ × Text)
  | .evaluated _ _ _ asked => asked
  | _ => []

def State.questions (s : State κ σ) (n : Nat) : List (κ × Text) :=
  (s.eventsOf n).flatMap fun e => e.act.questions

def Settles (u : Setup κ σ) (caller : Caller κ) (line : Line) (outcome : Except Failure Bool)
    (asked : List (κ × Text)) : Prop :=
  ∀ b : State κ σ, b.cache.Coherent → (b.evaluate u caller line).1 = outcome ∧
    (b.evaluate u caller line).2.session.asked = b.session.asked ++ asked

section
variable {u : Setup κ σ} {caller : Caller κ}

theorem Act.Faithful.settles (hr : Evaluation.Deterministic u.resolver) {line : Line}
    {outcome : Except Failure Bool} {asked : List (κ × Text)}
    (h : Act.Faithful u (.evaluated caller line outcome asked)) :
    Settles u caller line outcome asked := by
  obtain ⟨s, hs, houtcome, hasked⟩ := h
  obtain ⟨outcome', asked', hsteady⟩ := State.evaluate_steady hr caller line
  obtain ⟨houtcome', hasked'⟩ := hsteady s hs
  have ho : outcome' = outcome := houtcome'.symm.trans houtcome
  have ha : asked' = asked := List.append_cancel_left (hasked'.symm.trans hasked)
  rw [← ho, ← ha]
  exact hsteady

theorem evaluateAll_passed {passes : List (Pass κ)}
    (h : ∀ p ∈ passes, Settles u caller p.line (.ok true) p.asked) (rest : List Line)
    (b : State κ σ) (hb : b.cache.Coherent) :
    ∃ b' : State κ σ, b'.cache.Coherent ∧
      b'.session.asked = b.session.asked ++ passes.flatMap Pass.asked ∧
        b.evaluateAll u caller (Pass.lines passes ++ rest) = b'.evaluateAll u caller rest := by
  induction passes generalizing b with
  | nil => exact ⟨b, hb, by simp, rfl⟩
  | cons p passes ih =>
    obtain ⟨houtcome, hasked⟩ := h p List.mem_cons_self b hb
    have hcoherent := State.evaluate_coherent (u := u) hb caller p.line
    obtain ⟨b', hb', hasked', heq⟩ :=
      ih (fun p' hp => h p' (List.mem_cons_of_mem p hp)) _ hcoherent
    refine ⟨b', hb', ?_, ?_⟩
    · rw [hasked', hasked, List.flatMap_cons, List.append_assoc]
    · rw [← heq]
      change State.evaluateAll u b caller (p.line :: (Pass.lines passes ++ rest)) = _
      cases he : b.evaluate u caller p.line with
      | mk answer after =>
        rw [he] at houtcome
        cases houtcome
        simp only [State.evaluateAll, he]

/-- What evaluating at once comes to when a line is not true. -/
theorem evaluateAll_stopped {line : Line} {outcome : Except Failure Bool}
    {asked : List (κ × Text)} (h : Settles u caller line outcome asked)
    (hfalse : outcome.toOption.getD false = false) (rest : List Line) (b : State κ σ)
    (hb : b.cache.Coherent) : ∃ answer : Except Failure Bool, ∃ after : State κ σ,
      b.evaluateAll u caller (line :: rest) = (answer, after) ∧
        answer.toOption.getD false = false ∧ after.session.asked = b.session.asked ++ asked := by
  obtain ⟨houtcome, hasked⟩ := h b hb
  cases he : b.evaluate u caller line with
  | mk answer after =>
    rw [he] at houtcome hasked
    change answer = outcome at houtcome
    subst houtcome
    unfold State.evaluateAll
    rw [he]
    cases answer with
    | ok result =>
      cases result with
      | true => cases hfalse
      | false => exact ⟨_, _, rfl, rfl, hasked⟩
    | error failure =>
      cases failure with
      | malformed fault => exact ⟨_, _, rfl, rfl, hasked⟩
      | raised message => exact ⟨_, _, rfl, rfl, hasked⟩
      | unknownNode kind => exact ⟨_, _, rfl, rfl, hasked⟩

end

section
variable {u : Setup κ σ} {q : Request κ} {passes : List (Pass κ)}
  (h : ∀ p ∈ passes, Settles u q.caller p.line (.ok true) p.asked)
include h

theorem blocking_true (hl : q.lines = Pass.lines passes) (b : State κ σ)
    (hb : b.cache.Coherent) : ∃ answer, (b.step u q.blocking).1 = .result answer ∧
      answer.toOption.getD false = true ∧
        (b.step u q.blocking).2.session.asked =
          b.session.asked ++ passes.flatMap Pass.asked := by
  cases q with
  | one caller only =>
    obtain ⟨p, rfl, hp⟩ := List.map_eq_singleton_iff.mp hl.symm
    obtain ⟨houtcome, hasked⟩ := h p List.mem_cons_self b hb
    rw [hp] at houtcome hasked
    refine ⟨.ok true, congrArg Answer.result houtcome, rfl, ?_⟩
    rw [List.flatMap_singleton]
    exact hasked
  | all caller lines =>
    have hlines : lines = Pass.lines passes ++ [] := hl.trans (List.append_nil _).symm
    obtain ⟨b', -, hasked, heq⟩ := evaluateAll_passed h [] b hb
    have hrun : b.evaluateAll u caller lines = (.ok true, b') := by
      rw [hlines]
      exact heq
    refine ⟨.ok true, ?_, rfl, ?_⟩
    · simp only [Request.blocking, State.step, hrun]
    · simp only [Request.blocking, State.step, hrun]
      exact hasked

theorem blocking_false {line : Line} {rest : List Line} {outcome : Except Failure Bool}
    {asked : List (κ × Text)} (hl : q.lines = Pass.lines passes ++ line :: rest)
    (hline : Settles u q.caller line outcome asked)
    (hfalse : outcome.toOption.getD false = false) (b : State κ σ) (hb : b.cache.Coherent) :
    ∃ answer, (b.step u q.blocking).1 = .result answer ∧
      answer.toOption.getD false = false ∧
        (b.step u q.blocking).2.session.asked =
          b.session.asked ++ (passes.flatMap Pass.asked ++ asked) := by
  cases q with
  | one caller only =>
    obtain ⟨houtcome, hasked⟩ := hline b hb
    have hnil : passes = [] ∧ only = line := by
      cases passes with
      | nil => exact ⟨rfl, (List.cons.inj hl).1⟩
      | cons p passes =>
        have hlength := congrArg List.length hl
        simp [Request.lines] at hlength
    obtain ⟨rfl, rfl⟩ := hnil
    exact ⟨outcome, congrArg Answer.result houtcome, hfalse, hasked⟩
  | all caller lines =>
    have hlines : lines = Pass.lines passes ++ line :: rest := hl
    obtain ⟨b', hb', hasked', heq⟩ := evaluateAll_passed h (line :: rest) b hb
    obtain ⟨answer, after, hstop, hanswer, hasked⟩ := evaluateAll_stopped hline hfalse rest b' hb'
    have hrun : b.evaluateAll u caller lines = (answer, after) := by
      rw [hlines]
      exact heq.trans hstop
    refine ⟨answer, ?_, hanswer, ?_⟩
    · simp only [Request.blocking, State.step, hrun]
    · simp only [Request.blocking, State.step, hrun]
      rw [hasked, hasked', List.append_assoc]

end

theorem questions_tale (n : Nat) (caller : Caller κ) (passes : List (Pass κ)) :
    (tale n caller passes).flatMap (fun e => e.act.questions) = passes.flatMap Pass.asked := by
  induction passes with
  | nil => rfl
  | cons p passes ih =>
    rw [tale, List.flatMap_cons, List.flatMap_append, List.flatMap_cons]
    change _ ++ (tale n caller passes).flatMap _ = _
    rw [ih]
    simp [acts, Act.questions]

theorem questions_closing (q : Request κ) (n : Nat) (result : Bool) :
    (q.closing n (.settled result)).flatMap (fun e => e.act.questions) = [] := by
  unfold Request.closing
  split <;> rfl

def Agrees (u : Setup κ σ) (q : Request κ) (n : Nat) (s b : State κ σ) : Prop :=
  ∃ answer, (b.step u q.blocking).1 = .result answer ∧
    s.status n = .finished (answer.toOption.getD false) ∧
      (b.step u q.blocking).2.session.asked = b.session.asked ++ s.questions n

section
variable {u : Setup κ σ} {q : Request κ} {n : Nat} {s : State κ σ}

theorem Lives.agrees (hr : Evaluation.Deterministic u.resolver) (ht : Truthful u s)
    (h : Lives q n ⟨s, []⟩) {result : Bool} (hs : s.status n = .finished result)
    (hrefused : s.refusals n = []) (b : State κ σ) (hb : b.cache.Coherent) :
    Agrees u q n s b := by
  obtain ⟨passes, tail, he, hend⟩ := h.finished hs
  have htold : ∀ e ∈ s.eventsOf n, e.act.Faithful u :=
    fun e hmem => ht.evaluated e (List.mem_filter.mp hmem).1
  have hpasses : ∀ p ∈ passes, Settles u q.caller p.line (.ok true) p.asked := by
    intro p hp
    have hmem : (⟨p.future, n, .evaluated q.caller p.line (.ok true) p.asked⟩ : Event κ) ∈
        s.eventsOf n := by
      rw [he]
      apply List.mem_append_left
      exact List.mem_flatMap.mpr ⟨p, hp, by simp [acts]⟩
    exact Act.Faithful.settles hr (htold _ hmem)
  cases hend with
  | passed hlines =>
    obtain ⟨answer, hanswer, htrue, hasked⟩ := blocking_true hpasses hlines b hb
    refine ⟨answer, hanswer, by rw [htrue]; exact hs, ?_⟩
    rw [hasked, State.questions, he, List.flatMap_append, questions_tale, questions_closing,
      List.append_nil]
  | @failed g line rest v hlines hv =>
    have hmem : (⟨g, n, v.act q.caller line⟩ : Event κ) ∈ s.eventsOf n := by
      rw [he]
      simp [acts]
    cases v with
    | refused refusal =>
      have hline : line ∈ s.refusals n := List.mem_filterMap.mpr ⟨_, hmem, rfl⟩
      rw [hrefused] at hline
      cases hline
    | evaluated outcome asked =>
      have hsettles : Settles u q.caller line outcome asked :=
        Act.Faithful.settles hr (htold _ hmem)
      have hfalse : outcome.toOption.getD false = false := by
        cases outcome with
        | ok result => exact hv
        | error failure => rfl
      obtain ⟨answer, hanswer, hfalse', hasked⟩ :=
        blocking_false hpasses hlines hsettles hfalse b hb
      refine ⟨answer, hanswer, by rw [hfalse']; exact hs, ?_⟩
      rw [hasked, State.questions, he, List.flatMap_append, questions_tale, List.flatMap_append,
        questions_closing]
      simp [acts, Verdict.act, Act.questions]

end

/-- With a resolver whose answers hang on the caller and the text alone, a request always gets a
future; and if no line of it is refused and it is not cancelled, then in every run, once nothing is
queued, the future holds what evaluating the request at once answers in any state of any such
evaluator, false where that fails, and the same questions were asked for it. -/
theorem async_agrees_with_blocking (u : Setup κ σ) (hr : Evaluation.Deterministic u.resolver)
    (state : σ) (before after : List (Step κ)) (q : Request κ) :
    ∃ n, (((State.start u state).run u before).step u q.step).1 = .future n ∧
      let s := (State.start u state).run u (before ++ q.step :: after)
      s.refusals n = [] → s.status n ≠ .cancelled → s.tasks = [] → s.deliveries = [] →
        ∀ state' steps', Agrees u q n s ((State.start u state').run u steps') := by
  have hfuture : ∃ n, (((State.start u state).run u before).step u q.step).1 = .future n := by
    cases q <;> exact ⟨_, rfl⟩
  obtain ⟨n, hn⟩ := hfuture
  refine ⟨n, hn, ?_⟩
  intro s hrefused hcancelled htasks hdeliveries state' steps'
  have hreturned : Returned u state (before ++ q.step :: after) q n := ⟨before, after, rfl, hn⟩
  have hlives : Lives q n ⟨s, []⟩ := hreturned.lives
  have htruth : Truthful u s := run_truthful u state _
  have hcoherent := (run_truthful u state' steps').cache
  cases hs : s.status n with
  | pending =>
    obtain ⟨w, passes, g, line, rest, hduties, -⟩ := hlives.queued hlives.stands.2 hs
    have hnone : s.dutiesOf n = [] := by
      apply State.dutiesOf_eq_nil.mpr
      rw [State.tasksOf, State.deliveriesOf, htasks, hdeliveries]
      exact ⟨rfl, rfl⟩
    rw [hnone] at hduties
    cases hduties
  | cancelled => exact absurd hs hcancelled
  | finished result => exact hlives.agrees hr htruth hs hrefused _ hcoherent

/-- A chain of a line that is true and one that is not, with everything queued. -/
theorem async_agrees_on_two_lines :
    let u : Setup Unit Unit := ⟨.verbatim, .queued, .queued, 8⟩
    let q : Request Unit := .all ⟨(), none⟩
      [some ['a', '=', '=', 'a'], some ['a', '=', '=', 'b']]
    let s := (State.start u ()).run u
      ([] ++ q.step :: [.runTask 0, .dispatch 0, .runTask 0, .dispatch 0])
    Evaluation.Deterministic u.resolver ∧ s.refusals 0 = [] ∧ s.status 0 = .finished false ∧
      s.tasks = [] ∧ s.deliveries = [] ∧ Agrees u q 0 s ((State.start u ()).run u []) := by
  intro u q s
  have hr : Evaluation.Deterministic u.resolver := ⟨fun _ operand => .ok operand, fun _ _ _ => rfl⟩
  have hrefused : s.refusals 0 = [] := by decide +kernel
  have hstatus : s.status 0 = .finished false := by decide +kernel
  have htasks : s.tasks = [] := List.eq_nil_of_length_eq_zero (by decide +kernel)
  have hdeliveries : s.deliveries = [] := by decide +kernel
  obtain ⟨n, hn, hagrees⟩ := async_agrees_with_blocking u hr () []
    [.runTask 0, .dispatch 0, .runTask 0, .dispatch 0] q
  obtain rfl : 0 = n := Answer.future.inj hn
  exact ⟨hr, hrefused, hstatus, htasks, hdeliveries,
    hagrees hrefused (by rw [hstatus]; decide) htasks hdeliveries () []⟩

end Conditions.Evaluator
