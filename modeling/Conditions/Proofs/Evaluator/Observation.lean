import Conditions.Evaluator.Step

/-!
# What an operation shows on a state

The operations on a state, field by field. What is seen of a future hangs on its record alone, so an
operation that leaves the record alone is not seen. No operation changes whom a future belongs to.
-/

set_option autoImplicit false

namespace Conditions.Evaluator.State
open Expression

variable {κ σ : Type} {s s' : State κ σ}

theorem status_congr {f : Nat} (h : s'.futures[f]? = s.futures[f]?) : s'.status f = s.status f := by
  simp only [status, h]

theorem notified_congr {f : Nat} (h : s'.futures[f]? = s.futures[f]?) :
    s'.notified f = s.notified f := by
  simp only [notified, h]

theorem waiting_congr {f : Nat} (h : s'.futures[f]? = s.futures[f]?) :
    s'.waiting f = s.waiting f := by
  simp only [waiting, h]

theorem owner_congr {f : Nat} (h : s'.futures[f]? = s.futures[f]?) : s'.owner f = s.owner f := by
  simp only [owner, h]

theorem owner_of_le {f : Nat} (h : s.futures.length ≤ f) : s.owner f = f := by
  simp [owner, List.getElem?_eq_none h]

theorem waiting_of_le {f : Nat} (h : s.futures.length ≤ f) : s.waiting f = none := by
  simp [waiting, List.getElem?_eq_none h]

@[simp] theorem revise_length (s : State κ σ) (f : Nat) (change : Future κ → Future κ) :
    (s.revise f change).futures.length = s.futures.length := by
  simp [revise]

theorem revise_ne {f g : Nat} (h : f ≠ g) (change : Future κ → Future κ) :
    (s.revise f change).futures[g]? = s.futures[g]? := by
  simp [revise, h]

theorem revise_self (s : State κ σ) (f : Nat) (change : Future κ → Future κ) :
    (s.revise f change).futures[f]? = s.futures[f]?.map change := by
  simp [revise]

theorem owner_revise {change : Future κ → Future κ} (hc : ∀ x, (change x).outer = x.outer)
    (f g : Nat) : (s.revise f change).owner g = s.owner g := by
  by_cases h : f = g
  · subst h
    simp only [owner, revise_self]
    cases s.futures[f]? <;> simp [hc]
  · exact owner_congr (revise_ne h change)

theorem waiting_revise {change : Future κ → Future κ} (hc : ∀ x, (change x).waiting = x.waiting)
    (f g : Nat) : (s.revise f change).waiting g = s.waiting g := by
  by_cases h : f = g
  · subst h
    simp only [waiting, revise_self]
    cases s.futures[f]? <;> simp [hc]
  · exact waiting_congr (revise_ne h change)

theorem notified_revise {change : Future κ → Future κ} (hc : ∀ x, (change x).notified = x.notified)
    (f g : Nat) : (s.revise f change).notified g = s.notified g := by
  by_cases h : f = g
  · subst h
    simp only [notified, revise_self]
    cases s.futures[f]? <;> simp [hc]
  · exact notified_congr (revise_ne h change)

theorem status_revise {change : Future κ → Future κ} (hc : ∀ x, (change x).status = x.status)
    (f g : Nat) : (s.revise f change).status g = s.status g := by
  by_cases h : f = g
  · subst h
    simp only [status, revise_self]
    cases s.futures[f]? <;> simp [hc]
  · exact status_congr (revise_ne h change)

theorem status_setStatus_self {f : Nat} (h : f < s.futures.length) (status : Status) :
    (s.setStatus f status).status f = status := by
  simp [State.status, setStatus, revise_self, List.getElem?_eq_getElem h]

theorem settle_pending {f : Nat} {result : Bool} (h : s.status f = .pending) :
    s.settle f result = (s.setStatus f (.finished result)).tell f (.settled result) := by
  simp only [settle, h]

theorem settle_cancelled {f : Nat} {result : Bool} (h : s.status f = .cancelled)
    (hn : s.notified f = false) : s.settle f result = (s.notify f).tell f .dropped := by
  simp [settle, h, hn]

/-- Settling changes the status of one future at most, and tells of it. -/
theorem settle_eq (s : State κ σ) (f : Nat) (result : Bool) :
    ∃ change act, s.settle f result = (s.revise f change).tell f act ∧
      (∀ x, (change x).outer = x.outer) ∧ (∀ x, (change x).waiting = x.waiting) := by
  have hid : s.revise f id = s := by simp [revise]
  unfold settle
  split
  · exact ⟨_, _, rfl, fun _ => rfl, fun _ => rfl⟩
  · split
    · exact ⟨id, _, by rw [hid], fun _ => rfl, fun _ => rfl⟩
    · exact ⟨_, _, rfl, fun _ => rfl, fun _ => rfl⟩
  · exact ⟨id, _, by rw [hid], fun _ => rfl, fun _ => rfl⟩

section
variable (s : State κ σ) (f : Nat) (result : Bool)

theorem tasks_settle : (s.settle f result).tasks = s.tasks := by
  obtain ⟨change, act, he, -, -⟩ := s.settle_eq f result
  rw [he]
  rfl

theorem deliveries_settle : (s.settle f result).deliveries = s.deliveries := by
  obtain ⟨change, act, he, -, -⟩ := s.settle_eq f result
  rw [he]
  rfl

theorem owner_settle (g : Nat) : (s.settle f result).owner g = s.owner g := by
  obtain ⟨change, act, he, ho, -⟩ := s.settle_eq f result
  rw [he]
  exact owner_revise ho f g

theorem waiting_settle (g : Nat) : (s.settle f result).waiting g = s.waiting g := by
  obtain ⟨change, act, he, -, hw⟩ := s.settle_eq f result
  rw [he]
  exact waiting_revise hw f g

end

theorem settle_ne {f g : Nat} (h : f ≠ g) (result : Bool) :
    (s.settle f result).futures[g]? = s.futures[g]? := by
  obtain ⟨change, act, he, -, -⟩ := s.settle_eq f result
  rw [he]
  exact revise_ne h change

theorem status_settle_pending {f : Nat} (h : s.status f = .pending) (hf : f < s.futures.length)
    (result : Bool) : (s.settle f result).status f = .finished result := by
  rw [settle_pending h]
  exact status_setStatus_self hf _

theorem status_settle_cancelled {f : Nat} (h : s.status f = .cancelled) (result : Bool) :
    (s.settle f result).status f = .cancelled := by
  simp only [settle, h]
  split
  · exact h
  · have hsame : (s.notify f).status f = s.status f := status_revise (by intro _; rfl) f f
    exact hsame.trans h

structure Aside (s s' : State κ σ) : Prop where
  futures : s'.futures = s.futures
  tasks : s'.tasks = s.tasks
  deliveries : s'.deliveries = s.deliveries
  history : s'.history = s.history

namespace Aside

theorem refl (s : State κ σ) : Aside s s := ⟨rfl, rfl, rfl, rfl⟩

theorem trans {s s' s'' : State κ σ} (h : Aside s s') (h' : Aside s' s'') : Aside s s'' :=
  ⟨h'.futures.trans h.futures, h'.tasks.trans h.tasks, h'.deliveries.trans h.deliveries,
    h'.history.trans h.history⟩

end Aside

theorem say_aside (s : State κ σ) (n : Note) : Aside s (s.say n) := ⟨rfl, rfl, rfl, rfl⟩

theorem compile_aside (s : State κ σ) (line : Line) : Aside s (s.compile line).2 := by
  unfold compile
  split
  · exact .refl s
  · exact ⟨rfl, rfl, rfl, rfl⟩

theorem within_aside {α : Type} (s : State κ σ) (line : Line) (caller : Caller κ)
    {act : State κ σ → α × State κ σ} (h : ∀ s, Aside s (act s).2) :
    Aside s (s.within line caller act).2 := by
  have hact := h { s with session := { s.session with context :=
    ⟨some (line.getD []), caller.label⟩ } }
  exact ⟨hact.futures, hact.tasks, hact.deliveries, hact.history⟩

theorem evaluate_aside (u : Setup κ σ) (s : State κ σ) (caller : Caller κ) (line : Line) :
    Aside s (s.evaluate u caller line).2 := by
  refine within_aside s line caller fun s => ?_
  unfold assess
  have hc := compile_aside s line
  cases h : s.compile line with
  | mk answer s' =>
    rw [h] at hc
    cases answer with
    | error fault => exact hc
    | ok compiled =>
      dsimp only
      split <;> exact hc.trans ⟨rfl, rfl, rfl, rfl⟩

theorem evaluateAll_aside (u : Setup κ σ) (s : State κ σ) (caller : Caller κ)
    (lines : List Line) : Aside s (s.evaluateAll u caller lines).2 := by
  induction lines generalizing s with
  | nil => exact .refl s
  | cons line rest ih =>
    have he := evaluate_aside u s caller line
    unfold evaluateAll
    split <;> rename_i s' h <;> rw [h] at he
    · exact he.trans (ih s')
    · exact he.trans (say_aside s' _)
    · exact he.trans (say_aside s' _)
    · exact he

theorem attempt_eq (u : Setup κ σ) (s : State κ σ) (t : Task κ) :
    ∃ outcome asked s', Aside s s' ∧ s.attempt u t =
      (outcome, s'.tell t.future (.evaluated t.caller t.line outcome asked)) :=
  ⟨_, _, _, evaluate_aside u s t.caller t.line, rfl⟩

end Conditions.Evaluator.State
