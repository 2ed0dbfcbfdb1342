import Conditions.Proofs.Evaluator.Record

/-!
# The context of what is said

While a line is evaluated, what the resolver and the evaluator say carries the context of that line
and of its caller. All else is said in the context from before. A session therefore goes on by
passages, each of them one evaluation or one note besides, and the context is the same behind every
step, however the evaluations ended.
-/

set_option autoImplicit false

namespace Conditions.Evaluator
open Expression Journal Placeholder

variable {κ σ : Type}

def Note.besides : Note → Bool
  | .resolver _ | .evaluated _ _ => false
  | _ => true

def Caller.context (caller : Caller κ) (line : Line) : Context :=
  ⟨some (line.getD []), caller.label⟩

inductive Passage (κ : Type) where
  | aside (note : Note) (besides : note.besides = true)
  | evaluation (caller : Caller κ) (line : Line) (entries : List Entry)
      (outcome : Except Failure Bool)

def Passage.records (outside : Context) : Passage κ → List Noted
  | .aside note _ => [⟨note, outside⟩]
  | .evaluation caller line entries outcome =>
    (entries.map Note.resolver ++ outcome.toOption.toList.map (Note.evaluated line)).map
      fun note => ⟨note, caller.context line⟩

/-- The session has gone on by these passages: in each of them a note was made, or an evaluator with
that session evaluated a line and the journal grew by the records of the passage. -/
inductive Unfolds (u : Setup κ σ) : Session κ σ → List (Passage κ) → Session κ σ → Prop
  | nil (x : Session κ σ) : Unfolds u x [] x
  | aside {x y : Session κ σ} {passages : List (Passage κ)} (note : Note)
      (besides : note.besides = true) (rest : Unfolds u (x.say note) passages y) :
      Unfolds u x (.aside note besides :: passages) y
  | evaluation {y : Session κ σ} {passages : List (Passage κ)} (s : State κ σ) (caller : Caller κ)
      (line : Line) (entries : List Entry)
      (journal : (s.evaluate u caller line).2.session.journal = s.session.journal ++
        Passage.records s.session.context
          (.evaluation caller line entries (s.evaluate u caller line).1))
      (rest : Unfolds u (s.evaluate u caller line).2.session passages y) :
      Unfolds u s.session
        (.evaluation caller line entries (s.evaluate u caller line).1 :: passages) y

namespace Unfolds

variable {u : Setup κ σ} {x y z : Session κ σ} {passages passages' : List (Passage κ)}

theorem append (h : Unfolds u x passages y) (h' : Unfolds u y passages' z) :
    Unfolds u x (passages ++ passages') z := by
  induction h with
  | nil => exact h'
  | aside note besides _ ih => exact .aside note besides (ih h')
  | evaluation s caller line entries journal _ ih =>
    exact .evaluation s caller line entries journal (ih h')

/-- The context of an evaluation is put back, however it ends. -/
theorem context (h : Unfolds u x passages y) : y.context = x.context := by
  induction h with
  | nil => rfl
  | aside note besides _ ih => exact ih
  | evaluation s caller line entries journal _ ih => exact ih

theorem journal (h : Unfolds u x passages y) :
    y.journal = x.journal ++ passages.flatMap (Passage.records x.context) := by
  induction h with
  | nil x => exact (List.append_nil x.journal).symm
  | @aside x y passages note besides _ ih =>
    rw [ih, List.flatMap_cons, ← List.append_assoc]
    rfl
  | @evaluation y passages s caller line entries journal _ ih =>
    have hcontext : (s.evaluate u caller line).2.session.context = s.session.context := rfl
    rw [ih, List.flatMap_cons, ← List.append_assoc, journal, hcontext]

end Unfolds

def Session.Continues (u : Setup κ σ) (x y : Session κ σ) : Prop :=
  ∃ passages, Unfolds u x passages y

namespace Session.Continues

variable {u : Setup κ σ} {x y z : Session κ σ}

theorem refl (x : Session κ σ) : Continues u x x := ⟨[], .nil x⟩

theorem trans (h : Continues u x y) (h' : Continues u y z) : Continues u x z := by
  obtain ⟨passages, h⟩ := h
  obtain ⟨passages', h'⟩ := h'
  exact ⟨passages ++ passages', h.append h'⟩

theorem say (h : Continues u x y) {note : Note} (besides : note.besides = true) :
    Continues u x (y.say note) :=
  h.trans ⟨_, .aside note besides (.nil _)⟩

end Session.Continues

structure Session.Hears (x y : Session κ σ) : Prop where
  context : y.context = x.context
  journal : ∃ entries : List Entry,
    y.journal = x.journal ++ entries.map fun entry => ⟨.resolver entry, x.context⟩

namespace Session.Hears

variable {x y z : Session κ σ}

theorem refl (x : Session κ σ) : Hears x x := ⟨rfl, [], (List.append_nil x.journal).symm⟩

theorem trans (h : Hears x y) (h' : Hears y z) : Hears x z := by
  obtain ⟨entries, hjournal⟩ := h.journal
  obtain ⟨entries', hjournal'⟩ := h'.journal
  refine ⟨h'.context.trans h.context, entries ++ entries', ?_⟩
  rw [hjournal', hjournal, h.context, List.map_append, List.append_assoc]

end Session.Hears

namespace Evaluation

theorem ask_hears (r : Resolver κ σ) (caller : κ) (operand : Text) :
    Carries Session.Hears (ask r caller operand) := by
  intro x
  rw [run_ask]
  exact ⟨rfl, _, rfl⟩

theorem condition_hears (r : Resolver κ σ) (caller : κ) (c : Condition) :
    Carries Session.Hears (condition r caller c) :=
  condition_carries .refl (fun _ _ _ => .trans) (ask_hears r caller) c

end Evaluation

namespace State

variable {u : Setup κ σ} {s : State κ σ}

/-- The resolver speaks first, and then the result is noted, all in the context of the session. -/
theorem assess_journal (caller : Caller κ) (line : Line) (s : State κ σ) :
    ∃ entries : List Entry, (s.assess u caller line).2.session.journal = s.session.journal ++
      (entries.map Note.resolver ++
        (s.assess u caller line).1.toOption.toList.map (Note.evaluated line)).map
          fun note => ⟨note, s.session.context⟩ := by
  have hassessed := assess_assessed (u := u) caller line s
  have hcondition := fun c => Evaluation.condition_hears u.resolver caller.value c s.session
  generalize (s.assess u caller line).1 = answer at hassessed ⊢
  generalize (s.assess u caller line).2.session = y at hassessed ⊢
  cases hassessed with
  | malformed fault => exact ⟨[], (List.append_nil _).symm⟩
  | @failed c failure _ hrun =>
    have hy := hcondition c
    rw [hrun] at hy
    obtain ⟨entries, hjournal⟩ := hy.journal
    change y.journal = _ at hjournal
    exact ⟨entries, by simp [hjournal, Except.toOption]⟩
  | @found c result y hrun =>
    have hy := hcondition c
    rw [hrun] at hy
    obtain ⟨entries, hjournal⟩ := hy.journal
    change y.journal = _ at hjournal
    have hcontext : y.context = s.session.context := hy.context
    exact ⟨entries, by simp [hjournal, hcontext, Except.toOption, Session.say]⟩

theorem evaluate_continues (u : Setup κ σ) (s : State κ σ) (caller : Caller κ) (line : Line) :
    s.session.Continues u (s.evaluate u caller line).2.session := by
  obtain ⟨entries, hjournal⟩ := assess_journal (u := u) caller line
    { s with session := { s.session with context := caller.context line } }
  exact ⟨_, .evaluation s caller line entries hjournal (.nil _)⟩

theorem evaluateAll_continues (u : Setup κ σ) (s : State κ σ) (caller : Caller κ)
    (lines : List Line) : s.session.Continues u (s.evaluateAll u caller lines).2.session := by
  induction lines generalizing s with
  | nil => exact .refl _
  | cons line rest ih =>
    have hline := evaluate_continues u s caller line
    unfold evaluateAll
    split <;> rename_i s' heval <;> rw [heval] at hline
    · exact hline.trans (ih s')
    · exact hline.say rfl
    · exact hline.say rfl
    · exact hline

theorem settle_session (s : State κ σ) (f : Nat) (result : Bool) :
    (s.settle f result).session = s.session := by
  unfold settle
  cases s.status f with
  | pending => rfl
  | cancelled => cases s.notified f <;> rfl
  | finished _ => rfl

theorem cancel_session (s : State κ σ) (f : Nat) : (s.cancel f).session = s.session := by
  unfold cancel
  split <;> rfl

theorem park_session (s : State κ σ) (f : Nat) (chain : Option (Chain κ)) :
    (s.park f chain).session = s.session := by
  cases chain <;> rfl

theorem withdraw_session (s : State κ σ) (f : Nat) : (s.withdraw u f).session = s.session := by
  unfold withdraw
  split
  · exact (cancel_session _ _).trans (cancel_session s f)
  · exact cancel_session s f

end State

theorem Work.next_continues (u : Setup κ σ) (s : State κ σ) (w : Work κ) :
    s.session.Continues u (w.next u s).state.session := by
  have hsame : s.session.Continues u s.session := .refl _
  cases w with
  | submit t chain =>
    simp only [Work.next]
    split
    · exact hsame.say rfl
    · split
      · exact hsame
      all_goals
        rw [State.park_session]
        exact hsame
  | perform t chain => exact hsame
  | evaluate t chain =>
    have hline := State.evaluate_continues u s t.caller t.line
    simp only [Work.next, State.attempt]
    cases heval : (s.evaluate u t.caller t.line).1 with
    | ok result => exact hline
    | error failure => exact hline.say rfl
  | complete f result chain =>
    simp only [Work.next]
    split
    · exact hsame
    · rw [State.park_session]
      exact hsame
    · exact hsame.say rfl
  | deliver f result chain =>
    simp only [Work.next, State.settle_session]
    exact hsame
  | resume chain result =>
    cases result with
    | true => exact hsame
    | false =>
      simp only [Work.next, State.settle_session]
      exact hsame.say rfl
  | lines caller outer number todo =>
    simp only [Work.next]
    split
    · exact hsame.say rfl
    · cases todo with
      | nil =>
        simp only [State.settle_session]
        exact hsame
      | cons line rest => exact hsame
  | put caller outer number line rest => exact hsame

theorem Move.continues {u : Setup κ σ} {m m' : Moment κ σ} (h : Move u m m') :
    m.state.session.Continues u m'.state.session := by
  cases h with
  | work s w others => exact w.next_continues u s
  | compile s others line =>
    rw [State.compile_session]
    exact .refl _
  | evaluate s others caller line => exact s.evaluate_continues u caller line
  | evaluateAll s others caller lines => exact s.evaluateAll_continues u caller lines
  | request s others q => cases q <;> exact .refl _
  | withdraw s others f h =>
    rw [State.withdraw_session]
    exact .refl _
  | turn | task | delivery | refuse | shut => exact .refl _

theorem Reaches.continues {u : Setup κ σ} {m m' : Moment κ σ} (h : Reaches u m m') :
    m.state.session.Continues u m'.state.session := by
  induction h with
  | refl => exact .refl _
  | tail _ move ih => exact ih.trans move.continues

/-- Behind every step the context is the one from before, and the step is told by passages: what is
said during an evaluation carries the context of its line and its caller, and all else the context
around the step. In a run from the start that context is empty throughout. -/
theorem context_never_leaks (u : Setup κ σ) :
    (∀ (s : State κ σ) (step : Step κ),
      (s.step u step).2.session.context = s.session.context ∧
        ∃ passages, Unfolds u s.session passages (s.step u step).2.session ∧
          (s.step u step).2.session.journal =
            s.session.journal ++ passages.flatMap (Passage.records s.session.context)) ∧
    ∀ (state : σ) (steps : List (Step κ)),
      let s := (State.start u state).run u steps
      s.session.context = .none ∧ s.session.context.tag = [] ∧
        ∃ passages, Unfolds u (Session.start state) passages s.session ∧
          s.session.journal = passages.flatMap (Passage.records .none) := by
  constructor
  · intro s step
    obtain ⟨passages, hpassages⟩ := (step_reaches (u := u) s step).continues
    exact ⟨hpassages.context, passages, hpassages, hpassages.journal⟩
  · intro state steps s
    have hstart : (Session.start state).Continues u (State.start u state).session :=
      (Session.Continues.refl _).say rfl
    obtain ⟨passages, hpassages⟩ := hstart.trans
      (run_reaches (u := u) (State.start u state) steps).continues
    have hcontext : s.session.context = .none := hpassages.context
    refine ⟨hcontext, ?_, passages, hpassages, hpassages.journal⟩
    rw [hcontext]
    rfl

end Conditions.Evaluator
