import Conditions.Proofs.Evaluator.Agreement
import Conditions.Proofs.Evaluator.Obligation

/-!
# The lines of a chain in sequence

A chain puts a line to the worker only after the one before came out true and its result was
delivered. What is told of a chain is therefore the tale of the lines that passed and then of one
line at most.
-/

set_option autoImplicit false

namespace Conditions.Evaluator
open Expression

variable {κ σ : Type}

namespace Act

def submission? : Act κ → Option Line
  | .submitted line => some line
  | _ => none

def closes : Act κ → Bool
  | .settled _ | .dropped => true
  | _ => false

end Act

def submitted (events : List (Event κ)) : List Line := events.filterMap fun e => e.act.submission?

def evaluated (events : List (Event κ)) : List (Caller κ × Line × Except Failure Bool) :=
  events.filterMap fun e => e.act.evaluation?

def unsettled : List (Event κ) → List Nat
  | [] => []
  | e :: rest =>
    if e.act.submission?.isSome ∧ ∀ later ∈ rest, later.future = e.future → later.act.closes = false
    then e.future :: unsettled rest
    else unsettled rest

def State.submissions (s : State κ σ) (n : Nat) : List Line := submitted (s.eventsOf n)

theorem submitted_append (events rest : List (Event κ)) :
    submitted (events ++ rest) = submitted events ++ submitted rest :=
  List.filterMap_append

theorem evaluated_append (events rest : List (Event κ)) :
    evaluated (events ++ rest) = evaluated events ++ evaluated rest :=
  List.filterMap_append

theorem submitted_cons (g n : Nat) (line : Line) (rest : List (Event κ)) :
    submitted (⟨g, n, .submitted line⟩ :: rest) = line :: submitted rest := rfl

theorem submitted_tale (n : Nat) (caller : Caller κ) (passes : List (Pass κ)) :
    submitted (tale n caller passes) = Pass.lines passes := by
  induction passes with
  | nil => rfl
  | cons p passes ih =>
    rw [tale, List.flatMap_cons, submitted_append]
    change [p.line] ++ submitted (tale n caller passes) = _
    rw [ih]
    rfl

theorem evaluated_tale (n : Nat) (caller : Caller κ) (passes : List (Pass κ)) :
    evaluated (tale n caller passes) = passes.map fun p => (caller, p.line, .ok true) :=
  evaluations_tale n caller passes

theorem unsettled_length_le (events : List (Event κ)) :
    (unsettled events).length ≤ (submitted events).length := by
  induction events with
  | nil => simp [unsettled]
  | cons e rest ih =>
    have hone : submitted (e :: rest) = e.act.submission?.toList ++ submitted rest := by
      rw [submitted, List.filterMap_cons]
      cases e.act.submission? <;> rfl
    rw [unsettled, hone, List.length_append]
    split
    · rename_i h
      obtain ⟨line, hline⟩ := Option.isSome_iff_exists.mp h.1
      simp only [List.length_cons, hline, Option.toList_some, List.length_nil]
      omega
    · omega

def passing (n : Nat) (caller : Caller κ) (p : Pass κ) : List (Event κ) :=
  acts n p.future [.submitted p.line, .evaluated caller p.line (.ok true) p.asked, .settled true]

theorem tale_cons (n : Nat) (caller : Caller κ) (p : Pass κ) (passes : List (Pass κ)) :
    tale n caller (p :: passes) = passing n caller p ++ tale n caller passes := rfl

theorem unsettled_passing (n : Nat) (caller : Caller κ) (p : Pass κ) (events : List (Event κ)) :
    unsettled (passing n caller p ++ events) = unsettled events := by
  have hclosed : (⟨p.future, n, .settled true⟩ : Event κ).act.closes = true := rfl
  simp [passing, acts, unsettled, Act.submission?, hclosed]

/-- At any time while lines pass one after the other, one line at most is unsettled. -/
theorem unsettled_isPrefix (n : Nat) (caller : Caller κ) (passes : List (Pass κ))
    {tail past : List (Event κ)} (ht : (submitted tail).length ≤ 1)
    (h : past <+: tale n caller passes ++ tail) : (unsettled past).length ≤ 1 := by
  have hle := unsettled_length_le past
  induction passes generalizing past with
  | nil =>
    obtain ⟨rest, rfl⟩ := h
    change (submitted (past ++ rest)).length ≤ 1 at ht
    rw [submitted_append, List.length_append] at ht
    omega
  | cons p passes ih =>
    obtain ⟨rest, hrest⟩ := h
    rw [tale_cons, List.append_assoc] at hrest
    rcases List.append_eq_append_iff.mp hrest with ⟨back, hpass, -⟩ | ⟨back, rfl, hback⟩
    · have hone := congrArg (fun events => (submitted events).length) hpass
      change 1 = (submitted (past ++ back)).length at hone
      rw [submitted_append, List.length_append] at hone
      omega
    · rw [unsettled_passing]
      exact ih ⟨rest, hback.symm⟩ (unsettled_length_le back)

theorem eq_first_of_submitted {past later quiet : List (Event κ)} {first : Event κ} {g n : Nat}
    {line : Line} (h : past ++ ⟨g, n, .submitted line⟩ :: later = first :: quiet)
    (hq : submitted quiet = []) : past = [] ∧ first = ⟨g, n, .submitted line⟩ := by
  cases past with
  | nil => exact ⟨rfl, (List.cons.inj h).1.symm⟩
  | cons e past =>
    rw [← (List.cons.inj h).2] at hq
    change submitted (past ++ _) = [] at hq
    rw [submitted_append] at hq
    exact absurd (List.append_eq_nil_iff.mp hq).2 (List.cons_ne_nil line _)

/-- Where lines pass one after the other, a line is submitted behind the tale of those before. -/
theorem tale_split (n : Nat) (caller : Caller κ) (passes : List (Pass κ))
    {tail past later : List (Event κ)} {g : Nat} {line : Line}
    (h : tale n caller passes ++ tail = past ++ ⟨g, n, .submitted line⟩ :: later) :
    (∃ front p back, passes = front ++ p :: back ∧ past = tale n caller front ∧ line = p.line) ∨
      ∃ middle, past = tale n caller passes ++ middle ∧
        tail = middle ++ ⟨g, n, .submitted line⟩ :: later := by
  induction passes generalizing past with
  | nil => exact .inr ⟨past, rfl, h⟩
  | cons p passes ih =>
    rw [tale_cons, List.append_assoc] at h
    have hfront : past = [] ∧ line = p.line ∨ ∃ middle, past = passing n caller p ++ middle ∧
        tale n caller passes ++ tail = middle ++ ⟨g, n, .submitted line⟩ :: later := by
      rcases List.append_eq_append_iff.mp h with ⟨middle, hpast, hmiddle⟩ | ⟨back, hpass, hback⟩
      · exact .inr ⟨middle, hpast, hmiddle⟩
      · cases back with
        | nil => exact .inr ⟨[], by simp [hpass], hback.symm⟩
        | cons e back =>
          obtain ⟨rfl, -⟩ := List.cons.inj hback
          obtain ⟨hnil, hfirst⟩ := eq_first_of_submitted hpass.symm rfl
          obtain ⟨-, -, hact⟩ := Event.mk.inj hfirst
          exact .inl ⟨hnil, (Act.submitted.inj hact).symm⟩
    rcases hfront with ⟨hnil, hline⟩ | ⟨middle, hpast, hmiddle⟩
    · exact .inl ⟨[], p, passes, rfl, hnil, hline⟩
    · rcases ih hmiddle with ⟨front, p', back, rfl, rfl, hline⟩ | ⟨middle', rfl, htail⟩
      · exact .inl ⟨p :: front, p', back, rfl, hpast, hline⟩
      · refine .inr ⟨middle', ?_, htail⟩
        rw [hpast, tale_cons, List.append_assoc]

inductive Told (q : Request κ) (n : Nat) : List (Event κ) → Prop where
  | between {passes : List (Pass κ)} {rest : List Line} {tail : List (Event κ)}
      (lines : q.lines = Pass.lines passes ++ rest) (quiet : submitted tail = [])
      (idle : evaluated tail = []) : Told q n (tale n q.caller passes ++ tail)
  | within {passes : List (Pass κ)} {g : Nat} {line : Line} {rest : List Line}
      {tail : List (Event κ)} (outcomes : List (Except Failure Bool))
      (lines : q.lines = Pass.lines passes ++ line :: rest) (quiet : submitted tail = [])
      (once : outcomes.length ≤ 1)
      (told : evaluated tail = outcomes.map fun outcome => (q.caller, line, outcome)) :
      Told q n (tale n q.caller passes ++ ⟨g, n, .submitted line⟩ :: tail)

theorem submitted_closing (q : Request κ) (n : Nat) (result : Bool) :
    submitted (q.closing n (.settled result)) = [] := by
  unfold Request.closing
  split <;> rfl

namespace Told

variable {q : Request κ} {n : Nat} {s : State κ σ}

theorem verdict {passes : List (Pass κ)} {g : Nat} {line : Line} {rest : List Line}
    (lines : q.lines = Pass.lines passes ++ line :: rest) (v : Verdict κ)
    (more : List (Event κ)) (quiet : submitted more = []) (idle : evaluated more = []) :
    Told q n (tale n q.caller passes ++
      (acts n g [.submitted line, v.act q.caller line] ++ more)) := by
  cases v with
  | refused refusal =>
    exact .within [] lines quiet (Nat.zero_le 1) idle
  | evaluated outcome asked =>
    refine .within [outcome] lines quiet (Nat.le_refl 1) ?_
    change _ :: evaluated more = _
    rw [idle]
    rfl

theorem of_ending {passes : List (Pass κ)} {status : Status} {tail : List (Event κ)}
    (h : Ending q n (Pass.lines passes) status tail) :
    Told q n (tale n q.caller passes ++ tail) := by
  cases h with
  | passed hlines =>
    have hall : q.lines = Pass.lines passes ++ [] := by rw [hlines, List.append_nil]
    exact .between hall (submitted_closing q n true) (evaluation_closing q n true)
  | @failed g line rest v hlines hv =>
    have hidle : evaluated (q.closing n (.settled false)) = [] := evaluation_closing q n false
    exact verdict hlines v (acts n g [.settled false] ++ q.closing n (.settled false))
      (submitted_closing q n false) hidle
  | between hlines => exact .between hlines rfl rfl
  | skipped hlines => exact .within [] hlines rfl (Nat.zero_le 1) rfl
  | @dropped g line rest v hlines => exact verdict hlines v (acts n g [.dropped]) rfl rfl
  | @late g line rest v hlines hv =>
    exact verdict hlines v (acts n g [.settled false] ++ acts n n [.dropped]) rfl rfl

theorem of_holds {w : Work κ} (h : Holds q n s w) : Told q n (s.eventsOf n) := by
  cases w with
  | submit t chain | perform t chain | evaluate t chain =>
    obtain ⟨passes, rest, hw, -, -, he⟩ := h
    rw [he]
    exact .within [] hw.lines rfl (Nat.zero_le 1) rfl
  | complete g result chain | deliver g result chain =>
    obtain ⟨passes, line, rest, v, hw, -, -, he⟩ := h
    rw [he]
    exact verdict hw.lines v [] rfl rfl
  | resume chain result =>
    obtain ⟨passes, g, line, rest, v, hlines, -, -, -, he⟩ := h
    rw [he]
    exact verdict hlines v (acts n g [.settled result]) rfl rfl
  | lines caller outer number todo | put caller outer number line rest =>
    obtain ⟨passes, hlines, -, -, -, -, -, he⟩ := h
    rw [he, ← List.append_nil (tale n q.caller passes)]
    exact .between hlines rfl rfl

theorem of_lives {m : Moment κ σ} (h : Lives q n m) : Told q n (m.state.eventsOf n) := by
  rcases h.course with ⟨-, ho⟩ | ⟨w, -, hw⟩
  · obtain ⟨passes, tail, he, hend⟩ := ho.ending
    rw [he]
    exact of_ending hend
  · exact of_holds hw

section
variable {events : List (Event κ)} (h : Told q n events)
include h

theorem submitted_isPrefix : submitted events <+: q.lines := by
  cases h with
  | between lines quiet idle =>
    rw [submitted_append, submitted_tale, quiet, List.append_nil, lines]
    exact List.prefix_append _ _
  | @within passes g line rest tail outcomes lines quiet once told =>
    rw [submitted_append, submitted_tale, submitted_cons, quiet, lines]
    exact ⟨rest, by simp⟩

theorem submitted_length_le : (submitted events).length ≤ (evaluated events).length + 1 := by
  cases h with
  | between lines quiet idle =>
    rw [submitted_append, submitted_tale, evaluated_append, evaluated_tale, quiet, idle]
    simp
  | @within passes g line rest tail outcomes lines quiet once told =>
    rw [submitted_append, submitted_tale, evaluated_append, evaluated_tale, submitted_cons, quiet]
    simp

theorem evaluated_isPrefix : (evaluated events).map (fun e => (e.1, e.2.1)) <+:
    (submitted events).map fun line => (q.caller, line) := by
  have hpasses : ∀ passes : List (Pass κ),
      (passes.map fun p => (q.caller, p.line, (.ok true : Except Failure Bool))).map
        (fun e => (e.1, e.2.1)) = (Pass.lines passes).map fun line => (q.caller, line) := by
    intro passes
    simp only [Pass.lines, List.map_map]
    rfl
  cases h with
  | @between passes rest tail lines quiet idle =>
    have hsame : (evaluated (tale n q.caller passes ++ tail)).map (fun e => (e.1, e.2.1)) =
        (submitted (tale n q.caller passes ++ tail)).map fun line => (q.caller, line) := by
      rw [submitted_append, submitted_tale, evaluated_append, evaluated_tale, quiet, idle,
        List.append_nil, List.append_nil, hpasses]
    exact hsame ▸ List.prefix_rfl
  | @within passes g line rest tail outcomes lines quiet once told =>
    have hidle : evaluated (⟨g, n, .submitted line⟩ :: tail) = evaluated tail := rfl
    rw [submitted_append, submitted_tale, evaluated_append, evaluated_tale, submitted_cons, hidle, quiet,
      told, List.map_append, List.map_append, hpasses]
    match outcomes, once with
    | [], _ => exact ⟨[(q.caller, line)], by simp⟩
    | [outcome], _ => exact List.prefix_rfl

theorem unsettled_le {past : List (Event κ)} (hp : past <+: events) :
    (unsettled past).length ≤ 1 := by
  cases h with
  | between lines quiet idle => exact unsettled_isPrefix n q.caller _ (by simp [quiet]) hp
  | @within passes g line rest tail outcomes lines quiet once told =>
    refine unsettled_isPrefix n q.caller passes ?_ hp
    change (line :: submitted tail).length ≤ 1
    simp [quiet]

theorem past_of_submitted {past later : List (Event κ)} {g : Nat} {line : Line}
    (he : events = past ++ ⟨g, n, .submitted line⟩ :: later) :
    ∃ passes rest, past = tale n q.caller passes ∧ q.lines = Pass.lines passes ++ line :: rest := by
  have hfront : ∀ {passes front : List (Pass κ)} {p : Pass κ} {back : List (Pass κ)}
      {rest : List Line}, q.lines = Pass.lines passes ++ rest → passes = front ++ p :: back →
        q.lines = Pass.lines front ++ p.line :: (Pass.lines back ++ rest) := by
    intro passes front p back rest hlines hpasses
    rw [hlines, hpasses]
    simp [Pass.lines]
  cases h with
  | @between passes rest tail lines quiet idle =>
    rcases tale_split n q.caller passes he with ⟨front, p, back, hp, hpast, rfl⟩ | ⟨middle, -, ht⟩
    · exact ⟨front, _, hpast, hfront lines hp⟩
    · rw [ht, submitted_append] at quiet
      exact absurd (List.append_eq_nil_iff.mp quiet).2 (List.cons_ne_nil line _)
  | @within passes g' line' rest tail outcomes lines quiet once told =>
    rcases tale_split n q.caller passes he with
      ⟨front, p, back, hp, hpast, rfl⟩ | ⟨middle, hpast, ht⟩
    · exact ⟨front, _, hpast, hfront lines hp⟩
    · obtain ⟨rfl, hfirst⟩ := eq_first_of_submitted ht.symm quiet
      obtain ⟨-, -, hact⟩ := Event.mk.inj hfirst
      obtain rfl := Act.submitted.inj hact
      exact ⟨passes, rest, by rw [hpast, List.append_nil], lines⟩

end

end Told

structure Sequenced (q : Request κ) (n : Nat) (m : Moment κ σ) : Prop where
  unsettled : ∀ past, past <+: m.state.eventsOf n → (unsettled past).length ≤ 1
  duties : (m.dutiesOf n).length ≤ 1
  pending : (m.state.pendingLines n).length ≤ 1
  evaluated : (m.state.evaluations n).map (fun e => (e.1, e.2.1)) <+:
    q.lines.map fun line => (q.caller, line)
  /-- Whenever a line was submitted, all that had happened before is that the lines in front of it
  were submitted, came out true and were settled so. -/
  submitted : ∀ past g line later,
    m.state.eventsOf n = past ++ ⟨g, n, .submitted line⟩ :: later →
      ∃ passes rest, past = tale n q.caller passes ∧ q.lines = Pass.lines passes ++ line :: rest

/-- While a request is worked on, the future of one line of it is pending at most. -/
theorem Holds.pendingLines {q : Request κ} {n : Nat} {s : State κ σ} {w : Work κ}
    (h : Holds q n s w) : (s.pendingLines n).length ≤ 1 := by
  obtain ⟨g, hawake⟩ := h.awake
  have hnodup : (s.pendingLines n).Nodup := List.nodup_range.filter _
  have hone : s.pendingLines n ⊆ [g] := by
    intro f hf
    obtain ⟨hne, ho, hp⟩ : f ≠ n ∧ s.owner f = n ∧ s.status f = .pending := by
      simpa using (List.mem_filter.mp hf).2
    simpa [hne] using hawake.pending f ho hp
  exact (List.subperm_of_subset hnodup hone).length_le

theorem Lives.sequenced {q : Request κ} {n : Nat} {m : Moment κ σ} (h : Lives q n m) :
    Sequenced q n m where
  unsettled _ hp := (Told.of_lives h).unsettled_le hp
  duties := by
    rcases h.course with ⟨hd, -⟩ | ⟨w, hd, -⟩ <;> simp [hd]
  pending := by
    rcases h.course with ⟨-, ho⟩ | ⟨w, -, hw⟩
    · have hnone : m.state.pendingLines n = [] := by
        apply List.filter_eq_nil_iff.mpr
        intro f _
        simp only [decide_eq_true_eq]
        rintro ⟨-, hf, hp⟩
        exact ho.done f hf hp
      simp [hnone]
    · exact hw.pendingLines
  evaluated := by
    have htold := Told.of_lives h
    have hall := htold.submitted_isPrefix.map fun line => (q.caller, line)
    exact htold.evaluated_isPrefix.trans hall
  submitted _ _ _ _ he := (Told.of_lives h).past_of_submitted he

end Conditions.Evaluator
