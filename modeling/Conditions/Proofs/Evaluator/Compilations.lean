import Conditions.Proofs.Evaluator.Labour
import Conditions.Proofs.Evaluator.Recency
import Conditions.Proofs.Evaluator.Sequence

/-!
# The compilations of a run

Whoever evaluates a line has it compiled, at once or on the worker, and all share one cache. The
lines that a run compiles, in their order, therefore tell what the cache holds at any time, and
which condition every compilation is given.
-/

set_option autoImplicit false

namespace Conditions.Evaluator
open Expression

variable {κ σ : Type}

def evaluatedLines (events : List (Event κ)) : List Line :=
  (evaluated events).map fun (_, line, _) => line

namespace State

def reached (u : Setup κ σ) (s : State κ σ) (caller : Caller κ) : List Line → List Line
  | [] => []
  | line :: rest =>
    line :: match s.evaluate u caller line with
      | (.ok true, s) => s.reached u caller rest
      | _ => []

def compiles (u : Setup κ σ) (s : State κ σ) : Step κ → List Line
  | .parse line => [line]
  | .evaluate _ line => [line]
  | .evaluateAll caller lines => s.reached u caller lines
  | step => evaluatedLines ((s.step u step).2.history.drop s.history.length)

def compiled (u : Setup κ σ) (s : State κ σ) : List (Step κ) → List Line
  | [] => []
  | step :: rest => s.compiles u step ++ (s.step u step).2.compiled u rest

variable {u : Setup κ σ}

theorem compile_eq_fetch (s : State κ σ) (line : Line) :
    s.compile line = ((s.cache.fetch line).1, { s with cache := (s.cache.fetch line).2 }) := by
  unfold compile Cache.fetch
  cases present line <;> rfl

theorem cache_evaluate (s : State κ σ) (caller : Caller κ) (line : Line) :
    (s.evaluate u caller line).2.cache = (s.cache.fetch line).2 := by
  unfold evaluate within assess
  simp only [compile_eq_fetch]
  cases (s.cache.fetch line).1 with
  | error fault => rfl
  | ok compiled =>
    dsimp only
    split <;> rfl

theorem cache_evaluateAll (s : State κ σ) (caller : Caller κ) (lines : List Line) :
    (s.evaluateAll u caller lines).2.cache = s.cache.fetchAll (s.reached u caller lines) := by
  induction lines generalizing s with
  | nil => rfl
  | cons line rest ih =>
    have hline := cache_evaluate (u := u) s caller line
    unfold evaluateAll reached
    cases he : s.evaluate u caller line with
    | mk answer s' =>
      rw [he] at hline
      change s'.cache = _ at hline
      have hfetch : ∀ more, s.cache.fetchAll (line :: more) = s'.cache.fetchAll more := by
        intro more
        rw [hline]
        rfl
      cases answer with
      | ok result =>
        cases result with
        | true => exact (ih s').trans (hfetch _).symm
        | false => exact (hfetch []).symm
      | error failure => cases failure <;> exact (hfetch []).symm

def Compiles (s s' : State κ σ) : Prop :=
  ∃ new, s'.history = s.history ++ new ∧ s'.cache = s.cache.fetchAll (evaluatedLines new)

namespace Compiles

theorem same {s s' : State κ σ} (hh : s'.history = s.history) (hc : s'.cache = s.cache) :
    Compiles s s' := ⟨[], by rw [hh, List.append_nil], hc⟩

theorem attempt {s s₀ : State κ σ} (t : Task κ) (hh : s₀.history = s.history)
    (hc : s₀.cache = s.cache) : Compiles s (s₀.attempt u t).2 := by
  have haside := evaluate_aside u s₀ t.caller t.line
  have hline := cache_evaluate (u := u) s₀ t.caller t.line
  unfold State.attempt
  cases he : s₀.evaluate u t.caller t.line with
  | mk outcome after =>
    rw [he] at haside hline
    let asked := after.session.asked.drop s₀.session.asked.length
    let told : Event κ :=
      ⟨t.future, after.owner t.future, .evaluated t.caller t.line outcome asked⟩
    have hhistory : after.history = s.history := haside.history.trans hh
    refine ⟨[told], congrArg (· ++ [told]) hhistory, hline.trans ?_⟩
    rw [hc]
    rfl

theorem cancel (s : State κ σ) (f : Nat) : Compiles s (s.cancel f) := by
  unfold State.cancel
  split <;> exact .same rfl rfl

end Compiles

theorem compiles_upheld (u : Setup κ σ) : Upholds u Compiles where
  trans := by
    rintro s s' s'' ⟨new, hh, hc⟩ ⟨more, hh', hc'⟩
    refine ⟨new ++ more, by rw [hh', hh, List.append_assoc], ?_⟩
    rw [hc', hc, evaluatedLines, evaluatedLines, evaluatedLines, evaluated_append,
      List.map_append, Cache.fetchAll_append]
  idle h := .same h.history h.cache
  tell s f act hact := ⟨[⟨f, s.owner f, act⟩], rfl, by simp [evaluatedLines, evaluated, hact]; rfl⟩
  push _ _ := .same rfl rfl
  take _ := .same rfl rfl
  taken _ := .attempt _ rfl rfl
  instant _ t _ := .attempt t rfl rfl

theorem cache_step (s : State κ σ) (step : Step κ) :
    (s.step u step).2.cache = s.cache.fetchAll (s.compiles u step) := by
  have hworker : step.blocks = false →
      (s.step u step).2.cache = s.cache.fetchAll
        (evaluatedLines ((s.step u step).2.history.drop s.history.length)) := by
    intro hstep
    obtain ⟨new, hhistory, hcache⟩ := (compiles_upheld u).step s hstep fun f _ =>
      (compiles_upheld u).withdraw .cancel s f
    rw [hhistory, List.drop_left, hcache]
  cases step with
  | parse line => exact congrArg cache (congrArg Prod.snd (compile_eq_fetch s line))
  | evaluate caller line => exact cache_evaluate s caller line
  | evaluateAll caller lines => exact cache_evaluateAll s caller lines
  | _ => exact hworker rfl

theorem cache_run (s : State κ σ) (steps : List (Step κ)) :
    (s.run u steps).cache = s.cache.fetchAll (s.compiled u steps) := by
  induction steps generalizing s with
  | nil => rfl
  | cons step rest ih =>
    rw [run, compiled, ih, cache_step, Cache.fetchAll_append]

end State

open State

/-- After any run, the cache is as the lines compiled so far have left it, and what a line is given
is determined by them. Whenever lines were compiled, not more conditions are held than there is
room for, and the text of a line is given the condition that it was given last exactly if fewer
others than that were compiled with success since; else the condition is a new one. A line that
cannot be compiled changes nothing. -/
theorem conditions_kept_by_recency (u : Setup κ σ) (state : σ) (steps : List (Step κ)) :
    let s := (start u state).run u steps
    let n := u.cacheSize.toNat
    let lines := (start u state).compiled u steps
    s.cache = Cache.after n lines ∧
    (∀ line, (s.step u (.parse line)).1 = .compiled (Cache.given n lines line)) ∧
    ∀ before, before <+: lines →
      (Cache.after n before).held.length ≤ n ∧ ∀ line, Cache.Outcome n before line := by
  intro s n lines
  have hcache : s.cache = Cache.after n lines := cache_run (start u state) steps
  refine ⟨hcache, fun line => ?_, fun before _ => ⟨?_, fun line => ?_⟩⟩
  · change Answer.compiled (s.compile line).1 = _
    rw [compile_eq_fetch, hcache]
    rfl
  · exact Cache.held_length_le n before
  · exact Cache.outcome_total n before line

end Conditions.Evaluator
