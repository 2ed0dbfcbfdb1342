import Conditions.Proofs.Dictionary
import Conditions.Proofs.Evaluator.Observation

/-!
# What an evaluation does to its session

An evaluation puts further questions to the resolver and says further things to the journal. With a
resolver whose answers hang on the caller and the text alone, its outcome and its questions are
those of the line, whatever the session.
-/

set_option autoImplicit false

namespace Conditions.Evaluator
open Expression Journal Placeholder

variable {κ σ : Type}

def Note.warning? : Note → Option Entry
  | .failed line failure => some (Note.failed line failure).entry
  | .unscheduled line refusal => some (Note.unscheduled line refusal).entry
  | _ => none

def Session.warnings (s : Session κ σ) : List Entry := s.journal.filterMap fun n => n.note.warning?

structure Session.Extends (s s' : Session κ σ) : Prop where
  asked : ∃ new, s'.asked = s.asked ++ new
  warnings : s'.warnings = s.warnings

namespace Session

variable {s s' s'' : Session κ σ}

theorem Extends.refl (s : Session κ σ) : Extends s s := ⟨⟨[], by simp⟩, rfl⟩

theorem Extends.trans (h : Extends s s') (h' : Extends s' s'') : Extends s s'' := by
  obtain ⟨new, he⟩ := h.asked
  obtain ⟨new', he'⟩ := h'.asked
  exact ⟨⟨new ++ new', by rw [he', he, List.append_assoc]⟩, h'.warnings.trans h.warnings⟩

theorem warnings_say (s : Session κ σ) (n : Note) :
    (s.say n).warnings = s.warnings ++ n.warning?.toList := by
  rw [warnings, say, List.filterMap_append, warnings]
  cases hn : n.warning? <;> simp [hn]

theorem say_extends (s : Session κ σ) {n : Note} (h : n.warning? = none) : Extends s (s.say n) := by
  constructor
  · exact ⟨[], by simp [say]⟩
  · rw [warnings_say, h]
    simp

end Session

namespace Evaluation

variable {α β : Type}

theorem run_bind (e : Evaluation κ σ α) (k : α → Evaluation κ σ β) (s : Session κ σ) :
    (e >>= k).run.run s = match e.run.run s with
      | (.ok a, s') => (k a).run.run s'
      | (.error failure, s') => (.error failure, s') := by
  rw [ExceptT.run_bind, StateT.run_bind]
  cases e.run.run s with
  | mk answer s' => cases answer <;> rfl

theorem run_ask (r : Resolver κ σ) (caller : κ) (operand : Text) (s : Session κ σ) :
    (ask r caller operand).run.run s =
      let reply := r.resolve caller operand s.resolver
      (reply.answer.mapError .raised,
        { s with
          resolver := reply.state
          asked := s.asked ++ [(caller, operand)]
          journal := s.journal ++
            reply.entries.map fun e => (⟨.resolver e, s.context⟩ : Noted) }) := by
  have hget : (get : Evaluation κ σ (Session κ σ)).run.run s = (.ok s, s) := rfl
  have hset : ∀ s', (set s' : Evaluation κ σ PUnit).run.run s = (.ok ⟨⟩, s') := fun _ => rfl
  unfold ask
  simp only [run_bind, hget, hset]
  cases (r.resolve caller operand s.resolver).answer <;> rfl

def Carries (R : Session κ σ → Session κ σ → Prop) (e : Evaluation κ σ α) : Prop :=
  ∀ s, R s (e.run.run s).2

section
variable {R : Session κ σ → Session κ σ → Prop}

theorem Carries.pure (hrefl : ∀ s, R s s) (a : α) :
    Carries R (Pure.pure a : Evaluation κ σ α) :=
  fun s => hrefl s

theorem Carries.bind (htrans : ∀ s s' s'', R s s' → R s' s'' → R s s'')
    {e : Evaluation κ σ α} {k : α → Evaluation κ σ β} (he : Carries R e)
    (hk : ∀ a, Carries R (k a)) : Carries R (e >>= k) := by
  intro s
  have hs := he s
  rw [run_bind]
  cases h : e.run.run s with
  | mk answer s' =>
    rw [h] at hs
    cases answer with
    | ok a => exact htrans s s' _ hs (hk a s')
    | error failure => exact hs

end

def Proceeds (e : Evaluation κ σ α) : Prop := ∀ s, Session.Extends s (e.run.run s).2

theorem Proceeds.ask (r : Resolver κ σ) (caller : κ) (operand : Text) :
    Proceeds (ask r caller operand) := by
  intro s
  rw [run_ask]
  constructor
  · exact ⟨[(caller, operand)], rfl⟩
  · simp [Session.warnings, List.filterMap_append, List.filterMap_map, Note.warning?]

def Steady (e : Evaluation κ σ α) : Prop := ∃ outcome asked, ∀ s,
  (e.run.run s).1 = outcome ∧ (e.run.run s).2.asked = s.asked ++ asked

theorem Steady.pure (a : α) : Steady (Pure.pure a : Evaluation κ σ α) :=
  ⟨.ok a, [], fun s => ⟨rfl, (List.append_nil s.asked).symm⟩⟩

theorem Steady.bind {e : Evaluation κ σ α} {k : α → Evaluation κ σ β} (he : Steady e)
    (hk : ∀ a, Steady (k a)) : Steady (e >>= k) := by
  obtain ⟨outcome, asked, he⟩ := he
  cases outcome with
  | error failure =>
    refine ⟨.error failure, asked, fun s => ?_⟩
    obtain ⟨houtcome, hasked⟩ := he s
    rw [run_bind]
    cases h : e.run.run s with
    | mk answer s' =>
      rw [h] at houtcome hasked
      cases houtcome
      exact ⟨rfl, hasked⟩
  | ok a =>
    obtain ⟨outcome', asked', hk⟩ := hk a
    refine ⟨outcome', asked ++ asked', fun s => ?_⟩
    obtain ⟨houtcome, hasked⟩ := he s
    rw [run_bind]
    cases h : e.run.run s with
    | mk answer s' =>
      rw [h] at houtcome hasked
      cases houtcome
      obtain ⟨houtcome', hasked'⟩ := hk s'
      exact ⟨houtcome', by rw [hasked', hasked, List.append_assoc]⟩

def Deterministic (r : Resolver κ σ) : Prop :=
  ∃ f : κ → Text → Except String Text, ∀ caller operand state,
    (r.resolve caller operand state).answer = f caller operand

theorem Steady.ask {r : Resolver κ σ} (hr : Deterministic r) (caller : κ) (operand : Text) :
    Steady (ask r caller operand) := by
  obtain ⟨f, hf⟩ := hr
  refine ⟨(f caller operand).mapError .raised, [(caller, operand)], fun s => ?_⟩
  rw [run_ask]
  exact ⟨congrArg (Except.mapError Failure.raised) (hf caller operand s.resolver), rfl⟩

/-- What holds of the atoms of a formula, and goes through sequences, holds of the formula. -/
theorem holds_induction {P : Evaluation κ σ Bool → Prop} (hpure : ∀ b, P (pure b))
    (hbind : ∀ (e : Evaluation κ σ Bool) (k : Bool → Evaluation κ σ Bool),
      P e → (∀ a, P (k a)) → P (e >>= k))
    {put : Comparison → Evaluation κ σ Bool} (hput : ∀ a, P (put a)) (c : Condition) :
    P (c.holds put) := by
  induction c with
  | atom a => exact hput a
  | and left right ihl ihr =>
    apply hbind _ _ ihl
    intro b
    cases b with
    | true => exact ihr
    | false => exact hpure false
  | or left right ihl ihr =>
    apply hbind _ _ ihl
    intro b
    cases b with
    | true => exact hpure true
    | false => exact ihr

/-- A relation that asking carries is carried by every condition. -/
theorem condition_carries {R : Session κ σ → Session κ σ → Prop} (hrefl : ∀ s, R s s)
    (htrans : ∀ s s' s'', R s s' → R s' s'' → R s s'') {r : Resolver κ σ} {caller : κ}
    (hask : ∀ operand, Carries R (ask r caller operand)) (c : Condition) :
    Carries R (condition r caller c) :=
  holds_induction (.pure hrefl) (fun _ _ => .bind htrans)
    (fun a => (hask a.left).bind htrans fun _ =>
      (hask a.right).bind htrans fun _ => .pure hrefl _) c

theorem condition_proceeds (r : Resolver κ σ) (caller : κ) (c : Condition) :
    Proceeds (condition r caller c) :=
  condition_carries .refl (fun _ _ _ => .trans) (Proceeds.ask r caller) c

theorem condition_steady {r : Resolver κ σ} (hr : Deterministic r) (caller : κ) (c : Condition) :
    Steady (condition r caller c) :=
  holds_induction .pure (fun _ _ => .bind)
    (fun a => (Steady.ask hr caller a.left).bind fun _ =>
      (Steady.ask hr caller a.right).bind fun _ => .pure _) c

end Evaluation

def Cache.Coherent (c : Cache) : Prop := ∀ e ∈ c.held, parse e.1 = .ok e.2.condition

namespace Cache

theorem coherent_empty (capacity : Nat) : (empty capacity).Coherent :=
  fun _ h => absurd h List.not_mem_nil

/-- Compiling answers what parsing does, and keeps the cache in order. -/
theorem compile_coherent {c : Cache} (h : c.Coherent) (source : Text) :
    (c.compile source).1.map Compiled.condition = parse source ∧
      (c.compile source).2.Coherent := by
  unfold compile
  split
  · rename_i compiled hlookup
    have hentry := h _ (Dictionary.mem_of_find? hlookup)
    constructor
    · exact hentry.symm
    · intro e he
      rcases List.mem_cons.mp he with rfl | he
      · exact hentry
      · exact h e (List.mem_filter.mp he).1
  · unfold make
    cases hparse : parse source with
    | error fault => exact ⟨rfl, h⟩
    | ok condition =>
      refine ⟨rfl, fun e he => ?_⟩
      rcases List.mem_cons.mp (List.mem_of_mem_take he) with rfl | he
      · exact hparse
      · exact h e he

end Cache

end Conditions.Evaluator
