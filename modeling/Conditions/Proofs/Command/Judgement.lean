import Conditions.Command.Run
import Conditions.Proofs.Dictionary
import Conditions.Proofs.Evaluator.OwnWorker
import Conditions.Proofs.Placeholder.Lookup
import Conditions.Proofs.Placeholder.Passes

/-!
# What conditions come to

The values of placeholders are fixed texts, so replacing them cannot fail and does not depend on the
caller. A condition therefore has one truth, which evaluating it at once and on a worker find alike.
-/

set_option autoImplicit false

namespace Conditions.Command
open Expression (Condition parse)
open Evaluator (Setup State Line Session Evaluation)
open Placeholder

section
variable {κ σ α : Type}

def Certain (act : κ → Placeholder.Action σ α) : Prop := ∃ a, ∀ caller, act caller = pure a

def Fixed (r : Registry κ σ) : Prop :=
  ∀ key h, Dictionary.find? r key = some h → ∃ t, h = Handler.fixed t

theorem fixed_ofList {entries : List (Text × Handler κ σ)}
    (h : ∀ e ∈ entries, ∃ t, e.2 = Handler.fixed t) : Fixed (Registry.ofList entries) := by
  intro key handler hfound
  obtain ⟨e, he, rfl⟩ := Registry.exists_of_find?_ofList hfound
  exact h e he

section
variable {r : Registry κ σ} (hr : Fixed r)
include hr

theorem Fixed.certain {name raw : Text} {h : Handler κ σ} (hfound : r.find? name = some (h, raw)) :
    Certain fun caller => h caller raw := by
  obtain ⟨key, hkey⟩ := Registry.find?_key hfound
  obtain ⟨t, rfl⟩ := hr key h hkey
  exact ⟨t, fun _ => rfl⟩

theorem Fixed.answer (t : Text) :
    ∃ text, ∀ caller s, (r.resolver.resolve caller t s).answer = .ok text := by
  have hsame : ∀ name h raw, r.find? name = some (h, raw) →
      ∃ t, ∀ caller, True → h caller raw = pure t := by
    intro name h raw hfound
    obtain ⟨t, ht⟩ := hr.certain hfound
    exact ⟨t, fun caller _ => ht caller⟩
  obtain ⟨answers, hanswers⟩ := Registry.gives_of_find? hsame
  refine ⟨(rewrite answers)^[10] t, fun caller s => ?_⟩
  obtain ⟨settled, hresolve, -⟩ := (hanswers caller trivial).resolve t s
  rw [hresolve]

end

end

def replaced (values : Dictionary Text Text) (t : Text) : Text :=
  match ((resolverOf values).resolve none t ()).answer with
  | .ok text => text
  | .error _ => t

theorem resolverOf_answer (values : Dictionary Text Text) (who : Who) (t : Text) (s : Unit) :
    ((resolverOf values).resolve who t s).answer = .ok (replaced values t) := by
  have hfixed : Fixed (Registry.ofList (values.map fun e =>
      (e.1, (Handler.fixed e.2 : Handler Who Unit)))) := by
    refine fixed_ofList fun e he => ?_
    obtain ⟨e', -, rfl⟩ := List.mem_map.mp he
    exact ⟨e'.2, rfl⟩
  obtain ⟨text, htext⟩ := hfixed.answer t
  have hreplaced : replaced values t = text := by
    have hnone : ((resolverOf values).resolve none t ()).answer = .ok text := htext none ()
    unfold replaced
    rw [hnone]
  rw [hreplaced]
  exact htext who s

def holdsWith (replace : Text → Text) : Condition → Bool
  | .atom a => Expression.compare (replace a.left) (replace a.right) a.comparator
  | .and left right => holdsWith replace left && holdsWith replace right
  | .or left right => holdsWith replace left || holdsWith replace right

def truth? (values : Dictionary Text Text) (line : Text) : Option Bool :=
  ((parse line).map (holdsWith (replaced values))).toOption

theorem condition_answer {κ σ : Type} {r : Resolver κ σ} {caller : κ} {replace : Text → Text}
    (hr : ∀ t s, (r.resolve caller t s).answer = .ok (replace t)) (c : Condition)
    (s : Session κ σ) :
    ((Evaluation.condition r caller c).run.run s).1 = .ok (holdsWith replace c) := by
  unfold Evaluation.condition
  induction c generalizing s with
  | atom a =>
    unfold Expression.Formula.holds Evaluation.comparison
    simp only [Evaluation.run_bind, Evaluation.run_ask, hr]
    rfl
  | and left right ihl ihr =>
    unfold Expression.Formula.holds
    rw [Evaluation.run_bind]
    have hl := ihl s
    cases h : (left.holds (Evaluation.comparison r caller)).run.run s with
    | mk answer s' =>
      rw [h] at hl
      cases hl
      cases hleft : holdsWith replace left with
      | true => simpa [holdsWith, hleft] using ihr s'
      | false => simp [holdsWith, hleft]; rfl
  | or left right ihl ihr =>
    unfold Expression.Formula.holds
    rw [Evaluation.run_bind]
    have hl := ihl s
    cases h : (left.holds (Evaluation.comparison r caller)).run.run s with
    | mk answer s' =>
      rw [h] at hl
      cases hl
      cases hleft : holdsWith replace left with
      | true => simp [holdsWith, hleft]; rfl
      | false => simpa [holdsWith, hleft] using ihr s'

def passes (values : Dictionary Text Text) (line : Text) : Bool := (truth? values line).getD false

section
variable {u : Setup Who Unit} {values : Dictionary Text Text} (hu : u.resolver = resolverOf values)
include hu

theorem evaluate_answer {s : State Who Unit} (h : s.cache.Coherent) (who : Who) (line : Line) :
    (s.evaluate u ⟨who, who⟩ line).1 =
      ((Expression.parse? line).map (holdsWith (replaced values))).mapError .malformed := by
  obtain ⟨cache, -, heval⟩ := Evaluator.evaluate_eq_appraise h u ⟨who, who⟩ line
  rw [heval]
  unfold Session.appraise Evaluation.ofLine
  cases Expression.parse? line with
  | error fault => rfl
  | ok c =>
    have hresolve : ∀ t s, (u.resolver.resolve who t s).answer = .ok (replaced values t) := by
      rw [hu]
      exact fun t s => resolverOf_answer values who t s
    have hcondition := condition_answer hresolve c
      { s.session with context := ⟨some (line.getD []), who⟩ }
    simp only [Evaluation.run_bind]
    cases hrun : (Evaluation.condition u.resolver who c).run.run
        { s.session with context := ⟨some (line.getD []), who⟩ } with
    | mk answer y =>
      rw [hrun] at hcondition
      cases hcondition
      rfl

theorem evaluateAll_answer {s : State Who Unit} (h : s.cache.Coherent) (who : Who)
    (lines : List Text) :
    (s.evaluateAll u ⟨who, who⟩ (lines.map some)).1 = .ok (lines.all (passes values)) := by
  induction lines generalizing s with
  | nil => rfl
  | cons line rest ih =>
    have hline : (s.evaluate u ⟨who, who⟩ (some line)).1 =
        ((parse line).map (holdsWith (replaced values))).mapError .malformed :=
      evaluate_answer hu h who (some line)
    have hcoherent := State.evaluate_coherent (u := u) h ⟨who, who⟩ (some line)
    rw [List.map_cons, List.all_cons, passes, truth?]
    unfold State.evaluateAll
    cases heval : s.evaluate u ⟨who, who⟩ (some line) with
    | mk answer s' =>
      rw [heval] at hline hcoherent
      cases hparse : parse line with
      | error fault =>
        rw [hparse] at hline
        cases hline
        rfl
      | ok c =>
        rw [hparse] at hline
        change answer = .ok (holdsWith (replaced values) c) at hline
        subst hline
        simp only [Except.map, Except.toOption, Option.getD_some]
        cases holdsWith (replaced values) c with
        | true => exact ih hcoherent
        | false => rfl

end

def commandSetup (values : Dictionary Text Text) (cacheSize : Int) : Setup Who Unit :=
  ⟨resolverOf values, .owned, .immediate, cacheSize⟩

section
variable (values : Dictionary Text Text) (cacheSize : Int) (who : Who)

theorem evaluate_verdict (b : State Who Unit) (hb : b.cache.Coherent) (line : Line) :
    (b.evaluate (commandSetup values cacheSize) ⟨who, who⟩ line).1.toOption.getD false =
      ((Expression.parse? line).map (holdsWith (replaced values))).toOption.getD false := by
  rw [evaluate_answer rfl hb]
  cases Expression.parse? line <;> rfl

omit values cacheSize who in
theorem settled_answer {u : Setup Who Unit} {s : State Who Unit} {lines future : Nat} {result : Bool}
    (h : Evaluator.Rests (s.runTasks u (lines + 1)) future result) :
    (settled u true lines future s).1 = .result result := by
  simp only [settled, if_true, h.settled]

omit values cacheSize who in
theorem settled_pending {u : Setup Who Unit} {s : State Who Unit} {future : Nat} (lines : Nat)
    (h : s.status future = .pending) : (settled u false lines future s).1 = .forever := by
  simp only [settled, Bool.false_eq_true, if_false, h]

def awaited (c : Settings.EngineConfig) (lines : List Text) (passed : Bool) : Waited :=
  if startsWorkers c || lines.isEmpty then .result passed else .forever

/-- What a command finds out about a line. On a worker a malformed line counts as false. -/
theorem evaluateLine_answer (c : Settings.EngineConfig) (onWorker : Bool) (line : Text) :
    let u := commandSetup values cacheSize
    (evaluateLine c onWorker who line u (State.start u ())).1 =
      if onWorker then .ok (awaited c [line] (passes values line))
      else ((parse line).map fun c => .result (holdsWith (replaced values) c)).mapError
        .malformed := by
  intro u
  cases onWorker with
  | false =>
    have hanswer : (State.evaluate u (State.start u ()) ⟨who, who⟩ (some line)).1 =
        ((parse line).map (holdsWith (replaced values))).mapError .malformed :=
      evaluate_answer rfl (Evaluator.Cache.coherent_empty _) who (some line)
    change ((State.evaluate u (State.start u ()) ⟨who, who⟩ (some line)).1).map Waited.result = _
    rw [hanswer]
    cases parse line <;> rfl
  | true =>
    rw [if_pos rfl, awaited]
    cases hstarts : startsWorkers c with
    | true =>
      have hdone := Evaluator.evaluateAsync_done (u := u) (s := State.start u ()) rfl rfl
        (evaluate_verdict values cacheSize who) rfl (Evaluator.Cache.coherent_empty _) rfl
        (some line) 1
      unfold evaluateLine
      rw [if_pos rfl, hstarts]
      exact congrArg Except.ok (settled_answer hdone)
    | false =>
      have hpending : (State.evaluateAsync u (State.start u ()) ⟨who, who⟩ (some line)).2.status 0 =
          .pending := rfl
      unfold evaluateLine
      rw [if_pos rfl, hstarts]
      exact congrArg Except.ok (settled_pending 1 hpending)

theorem evaluateLines_answer (c : Settings.EngineConfig) (onWorker : Bool) (lines : List Text) :
    let u := commandSetup values cacheSize
    (evaluateLines c onWorker who lines u (State.start u ())).1 =
      .ok (if onWorker then awaited c lines (lines.all (passes values))
        else .result (lines.all (passes values))) := by
  intro u
  cases onWorker with
  | false =>
    have hanswer : (State.evaluateAll u (State.start u ()) ⟨who, who⟩ (lines.map some)).1 =
        .ok (lines.all (passes values)) :=
      evaluateAll_answer rfl (Evaluator.Cache.coherent_empty _) who lines
    change ((State.evaluateAll u (State.start u ()) ⟨who, who⟩ (lines.map some)).1).map
      Waited.result = _
    rw [hanswer]
    rfl
  | true =>
    rw [if_pos rfl, awaited]
    cases hstarts : startsWorkers c with
    | true =>
      have hdone := Evaluator.evaluateAllAsync_done (u := u) (s := State.start u ()) rfl rfl
        (evaluate_verdict values cacheSize who) rfl (Evaluator.Cache.coherent_empty _) rfl
        (lines.map some) (Nat.lt_succ_self _)
      rw [List.length_map, List.all_map] at hdone
      unfold evaluateLines
      rw [if_pos rfl, hstarts]
      exact congrArg Except.ok (settled_answer hdone)
    | false =>
      unfold evaluateLines
      rw [if_pos rfl, hstarts]
      cases lines with
      | nil => rfl
      | cons line rest =>
        -- the first line is queued, and the chain waits for it
        have hpending : (State.evaluateAllAsync u (State.start u ()) ⟨who, who⟩
            ((line :: rest).map some)).2.status 0 = .pending := by
          unfold State.evaluateAllAsync State.runLines
          rfl
        exact congrArg Except.ok (settled_pending (line :: rest).length hpending)

end

/-- What is no number is as good as no worker. -/
example : startsWorkers { Settings.engineDefaults with maxWorkers := .value (.float .nan) } =
    false := by decide

end Conditions.Command
