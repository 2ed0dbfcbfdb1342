import Conditions.Journal.Scope
import Mathlib.Data.List.Infix
import Mathlib.Logic.ExistsUnique

/-!
# Nested scopes

Which entry a leave belongs to can be told from the steps alone: it is the last one that nothing
has left yet. However the context is set and cleared, and whatever whole scopes are entered and
left in between, behind the leave all is as it was right before that entry.
-/

set_option autoImplicit false

namespace Conditions.Journal

namespace ScopeStep

def isEnter : ScopeStep → Bool
  | .enter _ => true
  | _ => false

def isLeave : ScopeStep → Bool
  | .leave _ => true
  | _ => false

def Proper (steps : List ScopeStep) : Prop :=
  ∀ front, front <+: steps → front.countP isLeave ≤ front.countP isEnter

instance (steps : List ScopeStep) : Decidable (Proper steps) :=
  decidable_of_iff (∀ front ∈ steps.inits, front.countP isLeave ≤ front.countP isEnter)
    (by simp only [List.mem_inits, Proper])

inductive Complete : List ScopeStep → Prop
  | nil : Complete []
  | set (c : Context) {rest : List ScopeStep} (h : Complete rest) : Complete (.set c :: rest)
  | clear {rest : List ScopeStep} (h : Complete rest) : Complete (.clear :: rest)
  | scope (c : Context) (raising : Bool) {inside rest : List ScopeStep} (inner : Complete inside)
      (h : Complete rest) : Complete (.enter c :: inside ++ .leave raising :: rest)

def Innermost (before steps : List ScopeStep) : Prop :=
  ∃ c inside, steps = before ++ .enter c :: inside ∧ Complete inside

variable {before before' inside steps rest : List ScopeStep}

namespace Proper

theorem of_append (h : Proper (steps ++ rest)) : Proper steps :=
  fun _ hfront => h _ (hfront.trans (List.prefix_append steps rest))

theorem cons {step : ScopeStep} (hstep : step.isLeave = false) (h : Proper rest) :
    Proper (step :: rest) := by
  intro front hfront
  rcases List.prefix_cons_iff.mp hfront with rfl | ⟨part, rfl, hpart⟩
  · exact le_rfl
  · have hle := h part hpart
    simp only [List.countP_cons, hstep, Bool.false_eq_true, if_false]
    omega

theorem append (h : Proper steps) (h' : Proper rest) : Proper (steps ++ rest) := by
  intro front hfront
  rcases List.prefix_or_prefix_of_prefix hfront (List.prefix_append steps rest) with
    hfront | ⟨part, rfl⟩
  · exact h front hfront
  · have hall := h steps List.prefix_rfl
    have hpart := h' part ((List.prefix_append_right_inj steps).mp hfront)
    simp only [List.countP_append]
    omega

theorem whole (h : Proper inside) (c : Context) (raising : Bool) :
    Proper (.enter c :: inside ++ [.leave raising]) := by
  intro front hfront
  rcases List.prefix_concat_iff.mp hfront with rfl | hfront
  · have hle := h inside List.prefix_rfl
    simp [List.countP_append, List.countP_cons, isEnter, isLeave]
    omega
  · exact h.cons rfl front hfront

end Proper

namespace Complete

theorem append (h : Complete steps) (h' : Complete rest) : Complete (steps ++ rest) := by
  induction h with
  | nil => exact h'
  | set c _ ih => exact ih.set c
  | clear _ ih => exact ih.clear
  | scope c raising inner _ _ ih =>
    rw [List.append_assoc]
    exact inner.scope c raising ih

theorem whole (h : Complete inside) (c : Context) (raising : Bool) :
    Complete (.enter c :: inside ++ [.leave raising]) := h.scope c raising .nil

theorem count_eq (h : Complete steps) : steps.countP isLeave = steps.countP isEnter := by
  induction h with
  | nil => rfl
  | set c _ ih => exact ih
  | clear _ ih => exact ih
  | scope c raising _ _ ihinner ih =>
    simp [List.countP_append, List.countP_cons, isEnter, isLeave]
    omega

theorem proper (h : Complete steps) : Proper steps := by
  induction h with
  | nil => simp [Proper]
  | set c _ ih => exact ih.cons rfl
  | clear _ ih => exact ih.cons rfl
  | scope c raising _ _ ihinner ih =>
    rw [List.append_cons]
    exact (ihinner.whole c raising).append ih

theorem not_innermost (h : Complete steps) : ¬ Innermost before steps := by
  rintro ⟨c, inside, rfl, hinside⟩
  have hbefore := h.proper before (List.prefix_append _ _)
  have hall := h.count_eq
  have hcount := hinside.count_eq
  simp [List.countP_append, List.countP_cons, isEnter, isLeave] at hall
  omega

/-- Of two entries behind which the steps are complete, the second is not later than the first: it
would be open behind the complete steps that follow the first. -/
theorem entry_not_later {c c' : Context} {inside' part : List ScopeStep} (h : Complete inside)
    (h' : Complete inside') (heq : .enter c :: inside = part ++ .enter c' :: inside') :
    part = [] := by
  cases part with
  | nil => rfl
  | cons step part =>
    obtain ⟨-, rfl⟩ := List.cons.inj heq
    exact absurd ⟨c', inside', rfl, h'⟩ h.not_innermost

end Complete

namespace Innermost

theorem append (h : Innermost before steps) (h' : Complete rest) :
    Innermost before (steps ++ rest) := by
  obtain ⟨c, inside, rfl, hinside⟩ := h
  exact ⟨c, inside ++ rest, by simp, hinside.append h'⟩

theorem unique (h : Innermost before steps) (h' : Innermost before' steps) :
    before = before' := by
  obtain ⟨c, inside, rfl, hinside⟩ := h
  obtain ⟨c', inside', heq, hinside'⟩ := h'
  rcases List.append_eq_append_iff.mp heq with ⟨part, rfl, hpart⟩ | ⟨part, rfl, hpart⟩
  · rw [hinside.entry_not_later hinside' hpart, List.append_nil]
  · rw [hinside'.entry_not_later hinside hpart, List.append_nil]

end Innermost

theorem Proper.countP_lt {raising : Bool} (h : Proper (steps ++ .leave raising :: rest)) :
    steps.countP isLeave < steps.countP isEnter := by
  rw [List.append_cons] at h
  have hle := h.of_append _ List.prefix_rfl
  simp [List.countP_append, isEnter, isLeave] at hle
  omega

theorem complete_or_innermost_append
    (h : Complete steps ∨ ∃ before, Innermost before steps) (h' : Complete rest) :
    Complete (steps ++ rest) ∨ ∃ before, Innermost before (steps ++ rest) := by
  rcases h with h | ⟨before, h⟩
  · exact .inl (h.append h')
  · exact .inr ⟨before, h.append h'⟩

theorem Proper.complete_or_innermost (h : Proper steps) :
    Complete steps ∨ ∃ before, Innermost before steps := by
  -- a leave at the end completes a scope, and what is in front of that scope is shorter
  induction hn : steps.length using Nat.strong_induction_on generalizing steps with
  | h n ih =>
    rcases List.eq_nil_or_concat' steps with rfl | ⟨front, step, rfl⟩
    · exact .inl .nil
    · rw [List.length_append, List.length_singleton] at hn
      have hfront := ih front.length (by omega) h.of_append rfl
      cases step with
      | set c => exact complete_or_innermost_append hfront (.set c .nil)
      | clear => exact complete_or_innermost_append hfront (.clear .nil)
      | enter c => exact .inr ⟨front, c, [], rfl, .nil⟩
      | leave raising =>
        rcases hfront with hfront | ⟨before, c, inside, rfl, hinside⟩
        · exact absurd hfront.count_eq h.countP_lt.ne
        · have hlength : before.length < n := by
            rw [List.length_append] at hn
            omega
          have hbefore := ih before.length hlength h.of_append.of_append rfl
          rw [List.append_assoc]
          exact complete_or_innermost_append hbefore (hinside.whole c raising)

theorem Proper.exists_innermost {raising : Bool}
    (h : Proper (steps ++ .leave raising :: rest)) : ∃ before, Innermost before steps := by
  rcases h.of_append.complete_or_innermost with hcomplete | hinnermost
  · exact absurd hcomplete.count_eq h.countP_lt.ne
  · exact hinnermost

end ScopeStep

namespace Scopes
open ScopeStep

def after (s : Scopes) (steps : List ScopeStep) : Scopes := steps.foldl step s

theorem after_append (s : Scopes) (steps rest : List ScopeStep) :
    s.after (steps ++ rest) = (s.after steps).after rest := List.foldl_append

/-- A leave undoes an entry when the contexts to be put back are those right behind the entry. -/
theorem step_leave {s x : Scopes} {c : Context} (h : x.saved = (s.step (.enter c)).saved)
    (raising : Bool) : x.step (.leave raising) = s := by
  have hsaved : x.saved = s.current :: s.saved := h
  simp only [step, hsaved, run_wayOut]

theorem after_scope {inside : List ScopeStep} (h : ∀ x : Scopes, (x.after inside).saved = x.saved)
    (s : Scopes) (c : Context) (raising : Bool) :
    s.after (.enter c :: inside ++ [.leave raising]) = s := by
  rw [after_append]
  exact step_leave (h _) raising

/-- Complete steps may change the current context, but not those to be put back. -/
theorem after_complete {steps : List ScopeStep} (h : Complete steps) (s : Scopes) :
    (s.after steps).saved = s.saved := by
  induction h generalizing s with
  | nil => rfl
  | set c _ ih => exact ih _
  | clear _ ih => exact ih _
  | scope c raising _ _ ihinner ih => rw [List.append_cons, after_append, after_scope ihinner, ih]

/-- However often the context has been changed since, a leave puts everything back as it was right
before the entry. -/
theorem after_leave {before steps : List ScopeStep} (h : Innermost before steps) (s : Scopes)
    (raising : Bool) : s.after (steps ++ [.leave raising]) = s.after before := by
  obtain ⟨c, inside, rfl, hinside⟩ := h
  rw [List.append_assoc, after_append]
  exact after_scope (after_complete hinside) _ c raising

/-- In steps that leave no scope which was not entered, every leave belongs to exactly one entry:
that of the innermost scope that is open. However that scope is left, all is then as it was right
before the entry, the current context and what the scopes around it will put back. So a whole scope
leaves everything as it found it. -/
theorem leaving_restores (s : Scopes) :
    (∀ steps : List ScopeStep, Proper steps →
      ∀ (front rest : List ScopeStep) (raising : Bool), steps = front ++ .leave raising :: rest →
        (∃! before, Innermost before front) ∧
          ∀ before, Innermost before front →
            s.after (front ++ [.leave raising]) = s.after before) ∧
      ∀ inside : List ScopeStep, Complete inside → ∀ (c : Context) (raising : Bool),
        s.after (.enter c :: inside ++ [.leave raising]) = s := by
  constructor
  · rintro _ hproper front rest raising rfl
    obtain ⟨before, hbefore⟩ := hproper.exists_innermost
    have hunique : ∀ other, Innermost other front → other = before :=
      fun other hother => hother.unique hbefore
    exact ⟨⟨before, hbefore, hunique⟩, fun other hother => after_leave hother s raising⟩
  · intro inside hinside c raising
    exact after_scope (after_complete hinside) s c raising

/-- Behind an error in the inner scope the context is the one that was set in the outer scope, and
behind the outer one there is none again. -/
theorem leaving_restores_nested :
    let alex : Context := ⟨some "1 > 0".toList, some "Alex".toList⟩
    let steve : Context := ⟨some "a == b".toList, some "Steve".toList⟩
    let nobody : Context := ⟨some "a == b".toList, .none⟩
    let front := [.enter alex, .set nobody, .enter steve, .clear]
    let steps := front ++ [.leave true, .set steve, .leave false]
    Proper steps ∧ Innermost [.enter alex, .set nobody] front ∧
      Complete [.set nobody, .enter steve, .clear, .leave true, .set steve] ∧
      (Scopes.none.after (front ++ [.leave true])).current = nobody ∧
      Scopes.none.after steps = .none := by
  intro alex steve nobody front steps
  have hproper : Proper steps := by decide
  have hinner : Innermost [.enter alex, .set nobody] front := ⟨steve, [.clear], rfl, .clear .nil⟩
  have hinside : Complete [.set nobody, .enter steve, .clear, .leave true, .set steve] :=
    .set nobody (.scope steve true (.clear .nil) (.set steve .nil))
  obtain ⟨hleave, hwhole⟩ := leaving_restores .none
  refine ⟨hproper, hinner, hinside, ?_, hwhole _ hinside alex false⟩
  rw [(hleave steps hproper front _ true rfl).2 _ hinner]
  rfl

end Scopes

end Conditions.Journal
