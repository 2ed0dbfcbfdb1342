import Conditions.Proofs.Evaluator.Course
import Conditions.Proofs.Evaluator.Record

/-!
# A gate that fails closed

A future comes to true only when each of its lines was evaluated to true. A line that fails or is
refused makes it false, and is warned about once.
-/

set_option autoImplicit false

namespace Conditions.Evaluator
open Expression

variable {κ σ : Type}

def Act.evaluation? : Act κ → Option (Caller κ × Line × Except Failure Bool)
  | .evaluated caller line outcome _ => some (caller, line, outcome)
  | _ => none

def Act.refusal? : Act κ → Option Line
  | .refused line _ => some line
  | _ => none

def State.evaluations (s : State κ σ) (n : Nat) : List (Caller κ × Line × Except Failure Bool) :=
  (s.eventsOf n).filterMap fun e => e.act.evaluation?

def State.refusals (s : State κ σ) (n : Nat) : List Line :=
  (s.eventsOf n).filterMap fun e => e.act.refusal?

theorem evaluations_tale (n : Nat) (caller : Caller κ) (passes : List (Pass κ)) :
    (tale n caller passes).filterMap (fun e => e.act.evaluation?) =
      passes.map fun p => (caller, p.line, .ok true) := by
  induction passes with
  | nil => rfl
  | cons p passes ih =>
    rw [tale, List.flatMap_cons, List.filterMap_append]
    change _ ++ (tale n caller passes).filterMap _ = _
    rw [ih]
    rfl

theorem evaluation_closing (q : Request κ) (n : Nat) (result : Bool) :
    (q.closing n (.settled result)).filterMap (fun e => e.act.evaluation?) = [] := by
  unfold Request.closing
  split <;> rfl

section
variable {q : Request κ} {n : Nat} {s : State κ σ}

theorem Lives.finished {hands : List (Work κ)} (h : Lives q n ⟨s, hands⟩) {result : Bool}
    (hs : s.status n = .finished result) : ∃ passes tail,
      s.eventsOf n = tale n q.caller passes ++ tail ∧
        Ending q n (Pass.lines passes) (.finished result) tail := by
  rcases h.course with ⟨-, ho⟩ | ⟨w, -, hw⟩
  · obtain ⟨passes, tail, he, hend⟩ := ho.ending
    exact ⟨passes, tail, he, hs ▸ hend⟩
  · obtain ⟨busy, hawake⟩ := hw.awake
    have hopen : s.Open n := hawake.expected
    rcases hopen.1 with hp | hc
    · exact absurd (hp.symm.trans hs) (by simp)
    · exact absurd (hc.symm.trans hs) (by simp)

theorem Lives.evaluations_true {hands : List (Work κ)} (h : Lives q n ⟨s, hands⟩)
    (hs : s.status n = .finished true) :
    s.evaluations n = q.lines.map fun line => (q.caller, line, .ok true) := by
  obtain ⟨passes, tail, he, hend⟩ := h.finished hs
  cases hend with
  | passed hlines =>
    rw [State.evaluations, he, List.filterMap_append, evaluations_tale, evaluation_closing,
      List.append_nil, hlines, Pass.lines, List.map_map]
    rfl

theorem Lives.failure {hands : List (Work κ)} (h : Lives q n ⟨s, hands⟩)
    (hs : s.status n = .finished false) : ∃ line ∈ q.lines,
      (q.caller, line, .ok false) ∈ s.evaluations n ∨
        (∃ failure, (q.caller, line, .error failure) ∈ s.evaluations n) ∨
          line ∈ s.refusals n := by
  obtain ⟨passes, tail, he, hend⟩ := h.finished hs
  cases hend with
  | @failed g line rest v hlines hv =>
    refine ⟨line, by simp [hlines], ?_⟩
    have hmem : (⟨g, n, v.act q.caller line⟩ : Event κ) ∈ s.eventsOf n := by
      rw [he]
      simp [acts]
    cases v with
    | refused refusal =>
      right; right
      exact List.mem_filterMap.mpr ⟨_, hmem, rfl⟩
    | evaluated outcome asked =>
      cases outcome with
      | error failure =>
        right; left
        exact ⟨failure, List.mem_filterMap.mpr ⟨_, hmem, rfl⟩⟩
      | ok result =>
        have hresult : result = false := hv
        left
        exact List.mem_filterMap.mpr ⟨_, hmem, by rw [hresult]; rfl⟩

end

/-- In every state that a run comes to: a future is true only after each of its lines was evaluated
to true, in order and once; it is false only after one of them was evaluated to false, failed or was
refused; for every failure and refusal there is one warning, in the order of their coming; and what
is told of evaluations is what evaluating the line does. -/
theorem gate_fails_closed (u : Setup κ σ) (state : σ) (steps : List (Step κ)) :
    let s := (State.start u state).run u steps
    (∀ q n, Returned u state steps q n → s.status n = .finished true →
      s.evaluations n = q.lines.map fun line => (q.caller, line, .ok true)) ∧
    (∀ q n, Returned u state steps q n → s.status n = .finished false → ∃ line ∈ q.lines,
      (q.caller, line, .ok false) ∈ s.evaluations n ∨
        (∃ failure, (q.caller, line, .error failure) ∈ s.evaluations n) ∨
          line ∈ s.refusals n) ∧
    (s.session.warnings = s.history.filterMap fun e => e.act.warning?) ∧
    ∀ e ∈ s.history, e.act.Faithful u := by
  intro s
  have htruth : Truthful u s := run_truthful u state steps
  refine ⟨?_, ?_, htruth.warnings, htruth.evaluated⟩
  · intro q n hq hs
    exact hq.lives.evaluations_true hs
  · intro q n hq hs
    exact hq.lives.failure hs

end Conditions.Evaluator
