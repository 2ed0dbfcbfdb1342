import Conditions.Proofs.Evaluator.Evaluation
import Conditions.Proofs.Evaluator.Work

/-!
# What is told of evaluations

The history tells of an evaluation what an evaluation of that line for that caller did, and for each
line that failed or was refused in the history there is one warning in the journal.
-/

set_option autoImplicit false

namespace Conditions.Evaluator
open Expression Journal Placeholder

variable {κ σ : Type}

namespace State

variable {u : Setup κ σ} {s : State κ σ}

theorem compile_session (s : State κ σ) (line : Line) : (s.compile line).2.session = s.session := by
  unfold compile
  split <;> rfl

theorem compile_coherent (h : s.cache.Coherent) (line : Line) :
    (s.compile line).2.cache.Coherent ∧
      (s.compile line).1.map Compiled.condition = (present line).bind parse := by
  unfold compile
  cases hp : present line with
  | error fault => exact ⟨h, rfl⟩
  | ok source =>
    have hc := Cache.compile_coherent h source
    exact ⟨hc.2, hc.1⟩

inductive Assessed (u : Setup κ σ) (caller : Caller κ) (line : Line) (x : Session κ σ) :
    Except Failure Bool → Session κ σ → Prop
  | malformed (fault : Fault) : Assessed u caller line x (.error (.malformed fault)) x
  | failed {c : Condition} {failure : Failure} {y : Session κ σ}
      (run : (Evaluation.condition u.resolver caller.value c).run.run x = (.error failure, y)) :
      Assessed u caller line x (.error failure) y
  | found {c : Condition} {result : Bool} {y : Session κ σ}
      (run : (Evaluation.condition u.resolver caller.value c).run.run x = (.ok result, y)) :
      Assessed u caller line x (.ok result) (y.say (.evaluated line result))

theorem assess_assessed (caller : Caller κ) (line : Line) (s : State κ σ) :
    Assessed u caller line s.session (s.assess u caller line).1
      (s.assess u caller line).2.session := by
  have hs := s.compile_session line
  unfold assess
  cases h : s.compile line with
  | mk answer s' =>
    rw [h] at hs
    change s'.session = s.session at hs
    rw [← hs]
    cases answer with
    | error fault => exact .malformed fault
    | ok compiled =>
      dsimp only
      split
      · rename_i failure y hrun
        exact .failed hrun
      · rename_i result y hrun
        exact .found hrun

theorem assess_extends (caller : Caller κ) (line : Line) (s : State κ σ) :
    Session.Extends s.session (s.assess u caller line).2.session := by
  have hassessed := assess_assessed (u := u) caller line s
  have hcondition := fun c => Evaluation.condition_proceeds u.resolver caller.value c s.session
  generalize (s.assess u caller line).1 = answer at hassessed
  generalize (s.assess u caller line).2.session = y at hassessed ⊢
  cases hassessed with
  | malformed fault => exact .refl _
  | @failed c failure _ hrun =>
    have hy := hcondition c
    rwa [hrun] at hy
  | @found c result y hrun =>
    have hy := hcondition c
    rw [hrun] at hy
    exact hy.trans (Session.say_extends y rfl)

theorem assess_coherent (h : s.cache.Coherent) (caller : Caller κ) (line : Line) :
    (s.assess u caller line).2.cache.Coherent := by
  have hc := (compile_coherent h line).1
  unfold assess
  cases hcompile : s.compile line with
  | mk answer s' =>
    rw [hcompile] at hc
    cases answer with
    | error fault => exact hc
    | ok compiled =>
      dsimp only
      split <;> exact hc

theorem evaluate_extends (u : Setup κ σ) (s : State κ σ) (caller : Caller κ) (line : Line) :
    Session.Extends s.session (s.evaluate u caller line).2.session := by
  have h := assess_extends (u := u) caller line { s with session :=
    { s.session with context := ⟨some (line.getD []), caller.label⟩ } }
  exact ⟨h.asked, h.warnings⟩

theorem evaluate_coherent (h : s.cache.Coherent) (caller : Caller κ) (line : Line) :
    (s.evaluate u caller line).2.cache.Coherent :=
  assess_coherent (u := u) (s := { s with session :=
    { s.session with context := ⟨some (line.getD []), caller.label⟩ } }) h caller line

theorem assess_steady (hr : Evaluation.Deterministic u.resolver) (caller : Caller κ)
    (line : Line) : ∃ outcome asked, ∀ s : State κ σ, s.cache.Coherent →
      (s.assess u caller line).1 = outcome ∧
        (s.assess u caller line).2.session.asked = s.session.asked ++ asked := by
  cases hparse : (present line).bind parse with
  | error fault =>
    refine ⟨.error (.malformed fault), [], fun s hs => ?_⟩
    have hc := (compile_coherent hs line).2
    have hsession := s.compile_session line
    unfold assess
    cases h : s.compile line with
    | mk answer s' =>
      rw [h, hparse] at hc
      rw [h] at hsession
      cases answer with
      | error fault' =>
        cases hc
        exact ⟨rfl, by rw [List.append_nil, ← hsession]⟩
      | ok compiled => cases hc
  | ok condition =>
    obtain ⟨outcome, asked, hsteady⟩ :=
      Evaluation.condition_steady hr caller.value condition
    refine ⟨outcome, asked, fun s hs => ?_⟩
    have hc := (compile_coherent hs line).2
    have hsession := s.compile_session line
    unfold assess
    cases h : s.compile line with
    | mk answer s' =>
      rw [h, hparse] at hc
      rw [h] at hsession
      cases answer with
      | error fault => cases hc
      | ok compiled =>
        obtain ⟨houtcome, hasked⟩ := hsteady s'.session
        change s'.session = s.session at hsession
        have hcondition : compiled.condition = condition := Except.ok.inj hc
        dsimp only
        rw [hcondition]
        split
        · rename_i failure session hrun
          rw [hrun] at houtcome hasked
          exact ⟨houtcome, by rw [← hsession]; exact hasked⟩
        · rename_i result session hrun
          rw [hrun] at houtcome hasked
          exact ⟨houtcome, by rw [← hsession]; exact hasked⟩

/-- With a deterministic resolver a line has one outcome and one row of questions. -/
theorem evaluate_steady (hr : Evaluation.Deterministic u.resolver) (caller : Caller κ)
    (line : Line) : ∃ outcome asked, ∀ s : State κ σ, s.cache.Coherent →
      (s.evaluate u caller line).1 = outcome ∧
        (s.evaluate u caller line).2.session.asked = s.session.asked ++ asked := by
  obtain ⟨outcome, asked, h⟩ := assess_steady hr caller line
  exact ⟨outcome, asked, fun s hs => h { s with session :=
    { s.session with context := ⟨some (line.getD []), caller.label⟩ } } hs⟩

theorem evaluateAll_extends (u : Setup κ σ) (s : State κ σ) (caller : Caller κ)
    (lines : List Line) : Session.Extends s.session (s.evaluateAll u caller lines).2.session := by
  induction lines generalizing s with
  | nil => exact .refl _
  | cons line rest ih =>
    have he := evaluate_extends u s caller line
    unfold evaluateAll
    split <;> rename_i s' h <;> rw [h] at he
    · exact he.trans (ih s')
    · exact he.trans (Session.say_extends _ rfl)
    · exact he.trans (Session.say_extends _ rfl)
    · exact he

theorem evaluateAll_coherent (h : s.cache.Coherent) (caller : Caller κ) (lines : List Line) :
    (s.evaluateAll u caller lines).2.cache.Coherent := by
  induction lines generalizing s with
  | nil => exact h
  | cons line rest ih =>
    have he := evaluate_coherent (u := u) h caller line
    unfold evaluateAll
    split <;> rename_i s' heq <;> rw [heq] at he
    · exact ih he
    · exact he
    · exact he
    · exact he

end State

namespace Act

def warning? : Act κ → Option Entry
  | .evaluated _ line (.error failure) _ =>
    some ⟨.warning, logger,
      s!"Async evaluation of {quotedLine line} failed: {failure.message}"⟩
  | .refused line refusal =>
    some ⟨.warning, logger,
      s!"Cannot schedule evaluation of {quotedLine line}: {refusal.message}"⟩
  | _ => none

def Faithful (u : Setup κ σ) : Act κ → Prop
  | .evaluated caller line outcome asked => ∃ s : State κ σ, s.cache.Coherent ∧
      (s.evaluate u caller line).1 = outcome ∧
        (s.evaluate u caller line).2.session.asked = s.session.asked ++ asked
  | _ => True

end Act

structure Truthful (u : Setup κ σ) (s : State κ σ) : Prop where
  cache : s.cache.Coherent
  evaluated : ∀ e ∈ s.history, e.act.Faithful u
  warnings : s.session.warnings = s.history.filterMap fun e => e.act.warning?

namespace Truthful

variable {u : Setup κ σ} {s s' : State κ σ}

theorem of_extends (h : Truthful u s) (hc : s'.cache.Coherent)
    (hs : Session.Extends s.session s'.session) (hh : s'.history = s.history) : Truthful u s' where
  cache := hc
  evaluated := by
    rw [hh]
    exact h.evaluated
  warnings := by
    rw [hh, hs.warnings]
    exact h.warnings

theorem of_same (h : Truthful u s) (hc : s'.cache = s.cache) (hs : s'.session = s.session)
    (hh : s'.history = s.history) : Truthful u s' :=
  h.of_extends (by rw [hc]; exact h.cache) (by rw [hs]; exact .refl _) hh

theorem say (h : Truthful u s) {n : Note} (hn : n.warning? = none) : Truthful u (s.say n) :=
  h.of_extends h.cache (Session.say_extends s.session hn) rfl

theorem tell (h : Truthful u s) (f : Nat) {act : Act κ} (hf : act.Faithful u)
    (hw : act.warning? = none) : Truthful u (s.tell f act) where
  cache := h.cache
  evaluated e he := by
    rcases List.mem_append.mp he with he | he
    · exact h.evaluated e he
    · rw [List.mem_singleton.mp he]
      exact hf
  warnings := by
    simp only [State.tell, List.filterMap_append, List.filterMap_cons, hw, List.filterMap_nil,
      List.append_nil]
    exact h.warnings

theorem warn (h : Truthful u s) (f : Nat) {act : Act κ} {n : Note} (hf : act.Faithful u)
    (hw : act.warning? = n.warning?) : Truthful u ((s.tell f act).say n) where
  cache := h.cache
  evaluated e he := by
    rcases List.mem_append.mp he with he | he
    · exact h.evaluated e he
    · rw [List.mem_singleton.mp he]
      exact hf
  warnings := by
    have hsay := Session.warnings_say s.session n
    change (s.session.say n).warnings = _
    rw [hsay, h.warnings]
    simp only [State.say, State.tell, List.filterMap_append]
    congr 1
    cases hn : n.warning? <;> simp [hw, hn]

theorem settle (h : Truthful u s) (f : Nat) (result : Bool) : Truthful u (s.settle f result) := by
  unfold State.settle
  split
  · have hstatus : Truthful u (s.setStatus f (.finished result)) := h.of_same rfl rfl rfl
    exact hstatus.tell f trivial rfl
  · split
    · exact h.tell f trivial rfl
    · have hnotify : Truthful u (s.notify f) := h.of_same rfl rfl rfl
      exact hnotify.tell f trivial rfl
  · exact h.tell f trivial rfl

theorem park (h : Truthful u s) (f : Nat) (chain : Option (Chain κ)) :
    Truthful u (s.park f chain) := by
  cases chain with
  | none => exact h
  | some chain => exact h.of_same rfl rfl rfl

theorem cancel (h : Truthful u s) (f : Nat) : Truthful u (s.cancel f) := by
  unfold State.cancel
  split
  · exact h.of_same rfl rfl rfl
  · exact h

theorem attempt (h : Truthful u s) (t : Task κ) :
    (∀ result s', s.attempt u t = (.ok result, s') → Truthful u s') ∧
      ∀ failure s', s.attempt u t = (.error failure, s') →
        Truthful u (s'.say (.failed t.line failure)) := by
  have hextends := State.evaluate_extends u s t.caller t.line
  have hafter : Truthful u (s.evaluate u t.caller t.line).2 :=
    h.of_extends (State.evaluate_coherent h.cache t.caller t.line) hextends
      (State.evaluate_aside u s t.caller t.line).history
  have hfaithful : ∀ outcome, (s.evaluate u t.caller t.line).1 = outcome →
      Act.Faithful u (.evaluated t.caller t.line outcome
        ((s.evaluate u t.caller t.line).2.session.asked.drop s.session.asked.length)) := by
    intro outcome houtcome
    obtain ⟨new, hnew⟩ := hextends.asked
    exact ⟨s, h.cache, houtcome, by rw [hnew, List.drop_left]⟩
  have hattempt : s.attempt u t = ((s.evaluate u t.caller t.line).1,
      (s.evaluate u t.caller t.line).2.tell t.future (.evaluated t.caller t.line
        (s.evaluate u t.caller t.line).1
        ((s.evaluate u t.caller t.line).2.session.asked.drop s.session.asked.length))) := rfl
  rw [hattempt]
  constructor
  · intro result s' heq
    obtain ⟨houtcome, rfl⟩ := Prod.mk.inj heq
    rw [houtcome]
    exact hafter.tell _ (hfaithful _ houtcome) rfl
  · intro failure s' heq
    obtain ⟨houtcome, rfl⟩ := Prod.mk.inj heq
    rw [houtcome]
    exact hafter.warn _ (hfaithful _ houtcome) rfl

theorem next (h : Truthful u s) (w : Work κ) : Truthful u (w.next u s).state := by
  cases w with
  | submit t chain =>
    simp only [Work.next]
    split
    · exact h.warn t.future trivial rfl
    · split
      · exact h
      all_goals
        have hpush : Truthful u { s with tasks := s.tasks ++ [t] } := h.of_same rfl rfl rfl
        exact hpush.park _ _
  | perform t chain => exact h
  | evaluate t chain =>
    obtain ⟨hok, herror⟩ := h.attempt t
    simp only [Work.next]
    split
    · rename_i result s' heq
      exact hok result s' heq
    · rename_i failure s' heq
      exact herror failure s' heq
  | complete g result chain =>
    simp only [Work.next]
    split
    · exact h
    · have hpush : Truthful u { s with deliveries := s.deliveries ++ [⟨g, result⟩] } :=
        h.of_same rfl rfl rfl
      exact hpush.park _ _
    · exact h.say rfl
  | deliver g result chain => exact h.settle g result
  | resume chain result =>
    cases result with
    | true => exact h
    | false =>
      have hsay : Truthful u (s.say (.chainFailed chain.line)) := h.say rfl
      exact hsay.settle _ _
  | lines caller outer number todo =>
    simp only [Work.next]
    split
    · exact h.say rfl
    · cases todo with
      | nil => exact h.settle outer true
      | cons line rest => exact h
  | put caller outer number line rest =>
    have hallot : Truthful u (s.allot (some outer)).2 := h.of_same rfl rfl rfl
    exact hallot.tell _ trivial rfl

end Truthful

theorem Move.truthful {u : Setup κ σ} {m m' : Moment κ σ} (h : Move u m m')
    (hm : Truthful u m.state) : Truthful u m'.state := by
  cases h with
  | turn s h => exact hm
  | work s w others => exact hm.next w
  | compile s others line =>
    refine hm.of_extends (State.compile_coherent hm.cache line).1 ?_
      (State.compile_aside s line).history
    rw [State.compile_session]
    exact .refl _
  | evaluate s others caller line =>
    exact hm.of_extends (State.evaluate_coherent hm.cache caller line)
      (State.evaluate_extends u s caller line) (State.evaluate_aside u s caller line).history
  | evaluateAll s others caller lines =>
    exact hm.of_extends (State.evaluateAll_coherent hm.cache caller lines)
      (State.evaluateAll_extends u s caller lines)
      (State.evaluateAll_aside u s caller lines).history
  | request s others q =>
    have hallot : Truthful u (s.allot none).2 := hm.of_same rfl rfl rfl
    cases q with
    | one caller line => exact hallot.tell _ trivial rfl
    | all caller lines => exact hallot
  | task s others ht => exact hm.of_same rfl rfl rfl
  | delivery s others hd => exact hm.of_same rfl rfl rfl
  | withdraw s others f h =>
    unfold State.withdraw
    split
    · exact (hm.cancel f).cancel _
    · exact hm.cancel f
  | refuse s others refusing => exact hm.of_same rfl rfl rfl
  | shut s others => exact hm.of_same rfl rfl rfl

theorem Reaches.truthful {u : Setup κ σ} {m m' : Moment κ σ} (h : Reaches u m m')
    (hm : Truthful u m.state) : Truthful u m'.state := by
  induction h with
  | refl => exact hm
  | tail _ step ih => exact step.truthful ih

theorem run_truthful (u : Setup κ σ) (state : σ) (steps : List (Step κ)) :
    Truthful u ((State.start u state).run u steps) := by
  have hstart : Truthful u (State.start u state) := by
    refine ⟨Cache.coherent_empty _, ?_, rfl⟩
    intro e he
    exact absurd he List.not_mem_nil
  exact Reaches.truthful (run_reaches (State.start u state) steps) hstart

end Conditions.Evaluator
