import Conditions.Proofs.Evaluator.Agreement
import Conditions.Proofs.Evaluator.Sequence

/-!
# Cancelled requests

A chain finds out that it is cancelled by asking, and asks before each line. A line that has passed
this test is committed: if the chain is cancelled now, the line is submitted all the same, and after
it no other. What is submitted or committed for a cancelled chain therefore stays the same for ever.
-/

set_option autoImplicit false

namespace Conditions.Evaluator
open Expression

variable {κ σ : Type}

def Work.committed (n : Nat) : Work κ → Option Line
  | .put _ outer _ line _ => if outer = n then some line else none
  | _ => none

/-- Neither a line is committed by the work nor the evaluation of one begun. -/
def Work.isEarly : Work κ → Bool
  | .evaluate _ _ | .put _ _ _ _ _ => false
  | _ => true

theorem Work.committed_of_isEarly {w : Work κ} (n : Nat) (h : w.isEarly = true) :
    w.committed n = none := by
  cases w with
  | put caller outer number line rest => cases h
  | submit | perform | evaluate | complete | deliver | resume | lines => rfl

namespace Moment

/-- The lines that have passed the test for cancellation and are not submitted yet. -/
def committed (m : Moment κ σ) (n : Nat) : List Line := m.hands.filterMap (Work.committed n)

def Begun (m : Moment κ σ) (n : Nat) : Prop :=
  ∃ t chain, .evaluate t chain ∈ m.hands ∧ t.future = n

end Moment

structure Work.Tells (s : State κ σ) (w : Work κ) (e : Event κ) : Prop where
  submission : e.act.submission? ≠ none →
    ∃ caller outer number line rest, w = .put caller outer number line rest
  evaluation : e.act.evaluation? ≠ none →
    ∃ t chain, w = .evaluate t chain ∧ e.owner = s.owner t.future

namespace Work

variable (u : Setup κ σ) (s : State κ σ) (n : Nat)

theorem tells_quiet (w : Work κ) {e : Event κ} (hs : e.act.submission? = none)
    (he : e.act.evaluation? = none) : w.Tells s e :=
  ⟨fun h => absurd hs h, fun h => absurd he h⟩

theorem settle_tells (w : Work κ) (s' : State κ σ) (f : Nat) (result : Bool) :
    Adds (w.Tells s) s'.history (s'.settle f result).history := by
  unfold State.settle
  split
  · exact .one (w.tells_quiet s rfl rfl)
  · split <;> exact .one (w.tells_quiet s rfl rfl)
  · exact .one (w.tells_quiet s rfl rfl)

theorem park_history (f : Nat) (chain : Option (Chain κ)) :
    (s.park f chain).history = s.history := by
  cases chain <;> rfl

theorem next_tells (w : Work κ) : Adds (w.Tells s) s.history (w.next u s).state.history := by
  cases w with
  | submit t chain =>
    simp only [next]
    split
    · exact .one (tells_quiet s _ rfl rfl)
    · split
      · exact .none rfl
      all_goals exact .none (park_history _ _ _)
  | perform t chain => exact .none rfl
  | evaluate t chain =>
    obtain ⟨outcome, asked, s', ha, he⟩ := State.attempt_eq u s t
    have howner : s'.owner t.future = s.owner t.future :=
      State.owner_congr (by rw [ha.futures])
    have htell : Adds (Tells s (.evaluate t chain)) s.history
        (s'.tell t.future (.evaluated t.caller t.line outcome asked)).history := by
      rw [← ha.history]
      exact .one ⟨fun h => absurd rfl h, fun _ => ⟨t, chain, rfl, howner⟩⟩
    simp only [next, he]
    cases outcome <;> exact htell
  | complete g result chain =>
    simp only [next]
    split
    · exact .none rfl
    · exact .none (park_history _ _ _)
    · exact .none rfl
  | deliver g result chain => exact settle_tells s _ s g result
  | resume chain result =>
    cases result with
    | true => exact .none rfl
    | false => exact settle_tells s _ (s.say (.chainFailed chain.line)) chain.outer false
  | lines caller outer number todo =>
    simp only [next]
    split
    · exact .none rfl
    · cases todo with
      | nil => exact settle_tells s _ s outer true
      | cons line rest => exact .none rfl
  | put caller outer number line rest =>
    exact .one ⟨fun _ => ⟨caller, outer, number, line, rest, rfl⟩, fun h => absurd rfl h⟩

end Work

theorem Adds.eventsOf {p : Event κ → Prop} {s s' : State κ σ} (h : Adds p s.history s'.history)
    (n : Nat) : Adds (fun e => p e ∧ e.owner = n) (s.eventsOf n) (s'.eventsOf n) := by
  obtain ⟨new, he, hnew⟩ := h
  refine ⟨new.filter fun e => e.owner = n, by rw [State.eventsOf, he, List.filter_append]; rfl, ?_⟩
  intro e hmem
  obtain ⟨hin, ho⟩ := List.mem_filter.mp hmem
  exact ⟨hnew e hin, by simpa using ho⟩

theorem Adds.filterMap_eq {α β : Type} {p : α → Prop} {l l' : List α} (h : Adds p l l')
    {f : α → Option β} (hf : ∀ a, p a → f a = Option.none) : l'.filterMap f = l.filterMap f := by
  obtain ⟨new, he, hnew⟩ := h
  have hnone : new.filterMap f = [] := List.filterMap_eq_nil_iff.mpr fun a ha => hf a (hnew a ha)
  rw [he, List.filterMap_append, hnone, List.append_nil]

namespace Work

variable (u : Setup κ σ) (s : State κ σ) (n : Nat)

/-- A piece of work submits the line it has committed, and no other. -/
theorem next_submissions (w : Work κ) :
    (w.next u s).state.submissions n = s.submissions n ++ (w.committed n).toList := by
  have hquiet : (∀ caller outer number line rest, w ≠ .put caller outer number line rest) →
      (w.next u s).state.submissions n = s.submissions n := by
    intro hput
    refine ((w.next_tells u s).eventsOf n).filterMap_eq ?_
    rintro e ⟨htells, -⟩
    by_contra hs
    obtain ⟨caller, outer, number, line, rest, hw⟩ := htells.submission hs
    exact hput _ _ _ _ _ hw
  cases w with
  | put caller outer number line rest =>
    have hnew : (s.allot (some outer)).2.owner s.futures.length = outer :=
      State.owner_allot_new s (some outer)
    have hhistory : ((Work.put caller outer number line rest).next u s).state.history =
        s.history ++ [⟨s.futures.length, outer, .submitted line⟩] := by
      change s.history ++ [⟨_, (s.allot (some outer)).2.owner s.futures.length, _⟩] = _
      rw [hnew]
    rw [State.submissions, State.eventsOf, hhistory, List.filter_append, submitted_append]
    by_cases ho : outer = n
    · simp [ho, committed, submitted, Act.submission?, State.submissions, State.eventsOf]
    · simp [ho, committed, submitted, State.submissions, State.eventsOf]
  | submit | perform | evaluate | complete | deliver | resume | lines =>
    simpa [committed] using hquiet (by simp)

/-- Only to find a task not cancelled is to begin with its line, and only to find a chain not
cancelled is to commit its next one. -/
theorem next_hands {w w' : Work κ} (h : w' ∈ (w.next u s).hands) : w'.isEarly = true ∨
    (∃ t chain, w = .perform t chain ∧ w' = .evaluate t chain ∧ s.status t.future ≠ .cancelled) ∨
    ∃ caller outer number line rest,
      w' = .put caller outer number line rest ∧ s.status outer ≠ .cancelled := by
  cases w with
  | submit t chain =>
    left
    simp only [next] at h
    split at h
    · rw [List.mem_singleton.mp h]
      rfl
    · split at h
      · rw [List.mem_singleton.mp h]
        rfl
      all_goals cases h
  | perform t chain =>
    by_cases hc : s.status t.future = .cancelled
    · simp [next, hc] at h
    · simp only [next, hc, if_false, List.mem_singleton] at h
      exact .inr (.inl ⟨t, chain, rfl, h, hc⟩)
  | evaluate t chain =>
    left
    simp only [next] at h
    split at h <;> rw [List.mem_singleton.mp h] <;> rfl
  | complete g result chain =>
    left
    simp only [next] at h
    split at h
    · rw [List.mem_singleton.mp h]
      rfl
    · cases h
    · rw [List.mem_singleton.mp h]
      rfl
  | deliver g result chain =>
    left
    simp only [next] at h
    split at h
    · obtain ⟨c, -, rfl⟩ := Option.map_eq_some_iff.mp (Option.mem_toList.mp h)
      rfl
    · cases h
  | resume chain result =>
    left
    cases result with
    | true =>
      rw [List.mem_singleton.mp h]
      rfl
    | false => cases h
  | lines caller outer number todo =>
    simp only [next] at h
    split at h
    · cases h
    · rename_i hc
      cases todo with
      | nil => cases h
      | cons line rest =>
        exact .inr (.inr ⟨caller, outer, number, line, rest, List.mem_singleton.mp h, hc⟩)
  | put caller outer number line rest =>
    left
    rw [List.mem_singleton.mp h]
    rfl

theorem next_committed (w : Work κ) (hc : s.status n = .cancelled) :
    (w.next u s).committed n = [] := by
  apply List.filterMap_eq_nil_iff.mpr
  intro w' hmem
  rcases next_hands u s hmem with hearly | ⟨t, chain, -, rfl, -⟩ |
    ⟨caller, outer, number, line, rest, rfl, hnot⟩
  · exact committed_of_isEarly n hearly
  · rfl
  · refine if_neg ?_
    rintro rfl
    exact hnot hc

theorem next_begun (w : Work κ) (hc : s.status n = .cancelled) : ¬ (w.next u s).Begun n := by
  rintro ⟨t, chain, hmem, rfl⟩
  rcases next_hands u s hmem with hearly | ⟨t', chain', -, heq, hnot⟩ |
    ⟨caller, outer, number, line, rest, heq, -⟩
  · cases hearly
  · obtain ⟨rfl, -⟩ := Work.evaluate.inj heq
    exact hnot hc
  · cases heq

end Work

section
variable {u : Setup κ σ} {m m' : Moment κ σ} {q : Request κ} {n : Nat}

theorem Move.history_isPrefix (h : Move u m m') : m.state.history <+: m'.state.history := by
  cases h with
  | work s w others =>
    obtain ⟨new, he, -⟩ := w.next_tells u s
    exact ⟨new, he.symm⟩
  | compile s others line => exact (State.compile_aside s line).history ▸ List.prefix_rfl
  | evaluate s others caller line =>
    exact (State.evaluate_aside u s caller line).history ▸ List.prefix_rfl
  | evaluateAll s others caller lines =>
    exact (State.evaluateAll_aside u s caller lines).history ▸ List.prefix_rfl
  | request s others q =>
    cases q with
    | one caller line => exact List.prefix_append _ _
    | all caller lines => exact List.prefix_rfl
  | withdraw s others f h => exact (withdraw_fades u s f).history ▸ List.prefix_rfl
  | turn | task | delivery | refuse | shut => exact List.prefix_rfl

theorem Reaches.history_isPrefix (h : Reaches u m m') :
    m.state.history <+: m'.state.history := by
  induction h with
  | refl => exact List.prefix_rfl
  | tail _ step ih => exact ih.trans step.history_isPrefix

structure Moment.Gathers (m m' : Moment κ σ) : Prop where
  events : ∀ n < m.state.futures.length, m'.state.eventsOf n = m.state.eventsOf n
  hands : ∃ new, m'.hands.Perm (new ++ m.hands) ∧ ∀ w ∈ new, w.isEarly = true

theorem Moment.Gathers.of_history {s s' : State κ σ} {hands : List (Work κ)}
    (h : s'.history = s.history) : Moment.Gathers ⟨s, hands⟩ ⟨s', hands⟩ :=
  ⟨fun _ _ => State.eventsOf_congr h, [], .refl _, nofun⟩

theorem Move.work_or_gathers (h : Move u m m') :
    (∃ s w others, m = ⟨s, w :: others⟩ ∧ m' = (w.next u s).beside others) ∨ m.Gathers m' := by
  cases h with
  | turn s h => exact .inr ⟨fun _ _ => rfl, [], h.symm, nofun⟩
  | work s w others => exact .inl ⟨s, w, others, rfl, rfl⟩
  | compile s others line => exact .inr (.of_history (State.compile_aside s line).history)
  | evaluate s others caller line =>
    exact .inr (.of_history (State.evaluate_aside u s caller line).history)
  | evaluateAll s others caller lines =>
    exact .inr (.of_history (State.evaluateAll_aside u s caller lines).history)
  | request s others q =>
    cases q with
    | one caller line =>
      refine .inr ⟨fun n hn => ?_, [.submit _ none], .refl _, by simp [Work.isEarly]⟩
      have hnew : (s.allot none).2.owner s.futures.length = s.futures.length :=
        State.owner_allot_new s none
      have htell : Serves s.futures.length (s.allot none).2
          ((s.allot none).2.tell s.futures.length (.submitted line)) := .tell hnew _
      exact htell.eventsOf_ne (Nat.ne_of_lt hn)
    | all caller lines =>
      refine .inr ⟨fun _ _ => rfl, [.lines caller s.futures.length 1 lines], .refl _, ?_⟩
      simp [Work.isEarly]
  | task s others ht =>
    refine .inr ⟨fun _ _ => rfl, [.perform _ _], .refl _, ?_⟩
    simp [Work.isEarly]
  | delivery s others hd =>
    refine .inr ⟨fun _ _ => rfl, [.deliver _ _ _], .refl _, ?_⟩
    simp [Work.isEarly]
  | withdraw s others f h => exact .inr (.of_history (withdraw_fades u s f).history)
  | refuse s others refusing => exact .inr (.of_history rfl)
  | shut s others => exact .inr (.of_history rfl)

theorem Work.committed_of_ne {s : State κ σ} {w : Work κ} (h : w.owner s ≠ n) :
    w.committed n = none := by
  cases w with
  | put caller outer number line rest => exact if_neg h
  | submit | perform | evaluate | complete | deliver | resume | lines => rfl

theorem Moment.committed_eq (m : Moment κ σ) (n : Nat) :
    m.committed n = (m.dutiesOf n).filterMap (Work.committed n) := by
  have hqueue : (m.state.dutiesOf n).filterMap (Work.committed n) = [] := by
    apply List.filterMap_eq_nil_iff.mpr
    intro w hw
    rcases List.mem_append.mp hw with hw | hw <;>
      obtain ⟨_, -, rfl⟩ := List.mem_map.mp hw <;> rfl
  rw [Moment.dutiesOf, List.filterMap_append, hqueue, List.append_nil, List.filterMap_filter,
    Moment.committed]
  apply List.filterMap_congr
  intro w _
  by_cases ho : w.owner m.state = n
  · simp [ho]
  · simp [ho, Work.committed_of_ne ho]

theorem Lives.committed_le (h : Lives q n m) : (m.committed n).length ≤ 1 := by
  rw [m.committed_eq]
  exact Nat.le_trans (List.length_filterMap_le _ _) h.sequenced.duties

/-- At most one line that was submitted, or will be if the request is cancelled, is not evaluated
yet. -/
theorem Lives.submitted_le (h : Lives q n m) :
    (m.state.submissions n ++ m.committed n).length ≤ (m.state.evaluations n).length + 1 := by
  have htold : (m.state.submissions n).length ≤ (m.state.evaluations n).length + 1 :=
    (Told.of_lives h).submitted_length_le
  by_cases hnone : m.committed n = []
  · simpa [hnone] using htold
  · rcases h.course with ⟨hd, -⟩ | ⟨w, hd, hw⟩
    · rw [m.committed_eq, hd] at hnone
      exact absurd rfl hnone
    · rw [m.committed_eq, hd] at hnone
      cases w with
      | put caller outer number line rest =>
        obtain ⟨passes, -, -, -, -, -, -, he⟩ := hw
        have hle := h.committed_le
        have hs : m.state.submissions n = Pass.lines passes := by
          rw [State.submissions, he, submitted_tale]
        have hv : (m.state.evaluations n).length = passes.length := by
          rw [State.evaluations, he, evaluations_tale, List.length_map]
        rw [List.length_append, hs, hv, Pass.lines, List.length_map]
        omega
      | submit | perform | evaluate | complete | deliver | resume | lines => exact absurd rfl hnone

/-- Of a cancelled chain only what is committed is submitted. -/
theorem Move.submissions_committed (h : Move u m m') (hl : Lives q n m)
    (hc : m.state.status n = .cancelled) :
    m'.state.submissions n ++ m'.committed n = m.state.submissions n ++ m.committed n := by
  rcases h.work_or_gathers with ⟨s, w, others, rfl, rfl⟩ | hg
  · have hs : ((w.next u s).beside others).state.submissions n =
        s.submissions n ++ (w.committed n).toList := w.next_submissions u s n
    have hnone := w.next_committed u s n hc
    rw [Moment.committed] at hnone
    rw [hs, Moment.committed, Moment.beside, List.filterMap_append, hnone, Moment.committed,
      List.filterMap_cons]
    cases w.committed n <;> simp
  · obtain ⟨new, hperm, hnew⟩ := hg.hands
    have hnone : new.filterMap (Work.committed n) = [] :=
      List.filterMap_eq_nil_iff.mpr fun w hw => w.committed_of_isEarly n (hnew w hw)
    have hcommitted : (m'.committed n).Perm (m.committed n) := by
      have hp := hperm.filterMap (Work.committed n)
      rwa [List.filterMap_append, hnone, List.nil_append] at hp
    rw [State.submissions, hg.events n hl.stands.1, State.submissions]
    congr 1
    have hone := hl.committed_le
    cases hm : m.committed n with
    | nil =>
      rw [hm] at hcommitted
      exact hcommitted.eq_nil
    | cons line rest =>
      obtain rfl : rest = [] := by simpa [hm] using hone
      rw [hm] at hcommitted
      exact hcommitted.eq_singleton

theorem Reaches.submissions_committed (h : Reaches u m m') (hm : m.Orderly) (hl : Lives q n m)
    (hc : m.state.status n = .cancelled) :
    m'.state.submissions n ++ m'.committed n = m.state.submissions n ++ m.committed n := by
  induction h with
  | refl => rfl
  | @tail m₁ m₂ hr step ih =>
    have hc' : m₁.state.status n = .cancelled := by
      rw [Reaches.keeps hr n (by simp [hc]), hc]
    rw [step.submissions_committed (Reaches.lives hr hm hl) hc', ih]

/-- The line of a single evaluation that is cancelled before its task is not evaluated. -/
theorem Move.unbegun {caller : Caller κ} {line : Line} (h : Move u m m')
    (hl : Lives (.one caller line) n m) (hc : m.state.status n = .cancelled) (hb : ¬ m.Begun n) :
    ¬ m'.Begun n ∧ m'.state.evaluations n = m.state.evaluations n := by
  rcases h.work_or_gathers with ⟨s, w, others, rfl, rfl⟩ | hg
  · constructor
    · rintro ⟨t, chain, hmem, ht⟩
      rcases List.mem_append.mp hmem with hmem | hmem
      · exact w.next_begun u s n hc ⟨t, chain, hmem, ht⟩
      · exact hb ⟨t, chain, List.mem_cons_of_mem _ hmem, ht⟩
    · refine ((w.next_tells u s).eventsOf n).filterMap_eq ?_
      rintro e ⟨htells, ho⟩
      by_contra he
      obtain ⟨t, chain, rfl, howner⟩ := htells.evaluation he
      obtain ⟨passes, rest, hw, -⟩ := (hl.holds (howner.symm.trans ho)).1
      exact hb ⟨t, chain, List.mem_cons_self, hw.eq_of_single⟩
  · obtain ⟨new, hperm, hnew⟩ := hg.hands
    constructor
    · rintro ⟨t, chain, hmem, ht⟩
      rcases List.mem_append.mp (hperm.mem_iff.mp hmem) with hmem | hmem
      · cases hnew _ hmem
      · exact hb ⟨t, chain, hmem, ht⟩
    · rw [State.evaluations, hg.events n hl.stands.1, State.evaluations]

theorem Reaches.unbegun {caller : Caller κ} {line : Line} (h : Reaches u m m') (hm : m.Orderly)
    (hl : Lives (.one caller line) n m) (hc : m.state.status n = .cancelled) (hb : ¬ m.Begun n) :
    ¬ m'.Begun n ∧ m'.state.evaluations n = m.state.evaluations n := by
  induction h with
  | refl => exact ⟨hb, rfl⟩
  | @tail m₁ m₂ hr step ih =>
    have hc' : m₁.state.status n = .cancelled := by
      rw [Reaches.keeps hr n (by simp [hc]), hc]
    obtain ⟨hb', he⟩ := step.unbegun (Reaches.lives hr hm hl) hc' ih.1
    exact ⟨hb', he.trans ih.2⟩

end

theorem status_withdraw (u : Setup κ σ) {s : State κ σ} {f : Nat} (hf : f < s.futures.length)
    (hp : s.status f = .pending) : (s.withdraw u f).status f = .cancelled := by
  have hself : (s.cancel f).status f = .cancelled := by
    rw [State.cancel, if_pos hp]
    exact State.status_setStatus_self hf _
  unfold State.withdraw
  rw [hp]
  cases s.waiting f with
  | none => exact hself
  | some chain =>
    rcases (Fades.cancel (s.cancel f) chain.outer).status f with h | ⟨-, h⟩
    · exact h.trans hself
    · exact h

/-- A cancellation comes off exactly if the future was pending or had been cancelled before. -/
theorem cancelled_iff (u : Setup κ σ) {s : State κ σ} {f : Nat} (hf : f < s.futures.length) :
    (s.step u (.cancel f)).1 = .cancelled true ↔
      s.status f = .pending ∨ s.status f = .cancelled := by
  have hanswer : (s.step u (.cancel f)).1 = .cancelled true ↔
      (s.withdraw u f).status f = .cancelled := by
    change Answer.cancelled ((s.withdraw u f).status f == .cancelled) = .cancelled true ↔ _
    simp
  rw [hanswer]
  constructor
  · intro hc
    rcases (withdraw_fades u s f).status f with h | ⟨hp, -⟩
    · exact .inr (h.symm.trans hc)
    · exact .inl hp
  · rintro (hp | hc)
    · exact status_withdraw u hf hp
    · rcases (withdraw_fades u s f).status f with h | ⟨-, h⟩
      · exact h.trans hc
      · exact h

/-- From one moment to a later one only the committed line, if there is one, is submitted, and at
most one line is evaluated, which was submitted or committed. -/
structure Halted (n : Nat) (m m' : Moment κ σ) : Prop where
  committed : (m.committed n).length ≤ 1
  submissions : m'.state.submissions n ++ m'.committed n = m.state.submissions n ++ m.committed n
  evaluations : ∃ last, m'.state.evaluations n = m.state.evaluations n ++ last ∧ last.length ≤ 1
  among : (m'.state.evaluations n).map (fun e => e.2.1) <+:
    m.state.submissions n ++ m.committed n

structure Skipped (u : Setup κ σ) (n : Nat) (s : State κ σ) : Prop where
  evaluations : s.evaluations n = []
  questions : s.questions n = []
  task : ∀ i t, s.tasks[i]? = some t → t.future = n → (s.runTask u i).2.session = s.session

section
variable {u : Setup κ σ} {m m' : Moment κ σ} {n : Nat}

theorem Reaches.halted {q : Request κ} (h : Reaches u m m') (hm : m.Orderly) (hl : Lives q n m)
    (hc : m.state.status n = .cancelled) : Halted n m m' := by
  have hsub := h.submissions_committed hm hl hc
  have hamong : (m'.state.evaluations n).map (fun e => e.2.1) <+:
      m.state.submissions n ++ m.committed n := by
    have hpairs := (Told.of_lives (h.lives hm hl)).evaluated_isPrefix.map Prod.snd
    rw [List.map_map, List.map_map] at hpairs
    change (m'.state.evaluations n).map (fun e => e.2.1) <+:
      (m'.state.submissions n).map id at hpairs
    rw [List.map_id] at hpairs
    exact hpairs.trans (hsub ▸ List.prefix_append _ _)
  refine ⟨hl.committed_le, hsub, ?_, hamong⟩
  obtain ⟨new, hnew⟩ := h.history_isPrefix
  have hgrown : m'.state.evaluations n = m.state.evaluations n ++
      Conditions.Evaluator.evaluated (new.filter fun e => e.owner = n) := by
    rw [State.evaluations, State.eventsOf, ← hnew, List.filter_append, List.filterMap_append]
    rfl
  refine ⟨_, hgrown, ?_⟩
  have hlast := hl.submitted_le
  have hle := hamong.length_le
  rw [hgrown, List.length_map, List.length_append] at hle
  omega

theorem Reaches.skipped {caller : Caller κ} {line : Line} (h : Reaches u m m') (hm : m.Orderly)
    (hl : Lives (.one caller line) n m) (hc : m.state.status n = .cancelled)
    (he : m.state.evaluations n = []) (hb : ¬ m.Begun n) : Skipped u n m'.state := by
  have hnone : m'.state.evaluations n = [] := (h.unbegun hm hl hc hb).2.trans he
  have hc' : m'.state.status n = .cancelled := (h.keeps n (by simp [hc])).trans hc
  refine ⟨hnone, ?_, ?_⟩
  · apply List.flatMap_eq_nil_iff.mpr
    intro e hmem
    have hno := List.filterMap_eq_nil_iff.mp hnone e hmem
    cases hact : e.act <;> simp [hact, Act.evaluation?] at hno <;> rfl
  · intro i t ht hn
    rw [← hn] at hc'
    have hidle : (m'.state.runTask u i).2 =
        { m'.state with tasks := m'.state.tasks.eraseIdx i } := by
      rw [State.runTask, ht]
      exact if_pos hc'
    rw [hidle]

end

/-- At every moment that several threads come to, steps of one thread among them: the lines of a
request come one after the other, each behind the delivery of the one before. Once its future is
cancelled no line of it is submitted but the one that was committed, if there was one; and if the
task of a single evaluation had not begun, its line is never evaluated. A future can be cancelled
exactly if it is pending or was cancelled before. -/
theorem lines_in_sequence (u : Setup κ σ) (state : σ) :
    (∀ q n m, Asked u state q n m → Sequenced q n m ∧
      ((m.state.step u (.cancel n)).1 = .cancelled true → ∀ m',
        Reaches u ⟨(m.state.step u (.cancel n)).2, m.hands⟩ m' → Halted n m m' ∧
          (q.chained = false → m.state.evaluations n = [] → ¬ m.Begun n →
            Skipped u n m'.state))) ∧
    (∀ q n steps, Returned u state steps q n →
      Asked u state q n ⟨(State.start u state).run u steps, []⟩) ∧
    ∀ m, Reaches u ⟨State.start u state, []⟩ m → ∀ f < m.state.futures.length,
      (m.state.step u (.cancel f)).1 = .cancelled true ↔
        m.state.status f = .pending ∨ m.state.status f = .cancelled := by
  refine ⟨?_, fun q n steps h => h.asked, fun m _ f hf => cancelled_iff u hf⟩
  intro q n m hq
  have hm : m.Orderly := hq.reached.orderly (start_orderly u state)
  have hl : Lives q n m := hq.lives
  refine ⟨hl.sequenced, ?_⟩
  intro hcancel m' hreach
  have hmove : Move u m ⟨m.state.withdraw u n, m.hands⟩ :=
    .withdraw m.state m.hands n (.inl hl.stands.2)
  have hfades := withdraw_fades u m.state n
  have hl' := (hmove.advances hm).lives q n hl
  have hm' := hm.advance (hmove.advances hm)
  have hc : (m.state.withdraw u n).status n = .cancelled := by
    change Answer.cancelled ((m.state.withdraw u n).status n == .cancelled) =
      .cancelled true at hcancel
    simpa using hcancel
  have hsub : (m.state.withdraw u n).submissions n = m.state.submissions n := by
    rw [State.submissions, State.eventsOf_congr hfades.history, State.submissions]
  have hev : (m.state.withdraw u n).evaluations n = m.state.evaluations n := by
    rw [State.evaluations, State.eventsOf_congr hfades.history, State.evaluations]
  constructor
  · obtain ⟨hone, hsame, hlast, hamong⟩ := Reaches.halted hreach hm' hl' hc
    exact ⟨hone, hsub ▸ hsame, hev ▸ hlast, hsub ▸ hamong⟩
  · intro hsingle he hb
    cases q with
    | one caller line => exact Reaches.skipped hreach hm' hl' hc (hev.trans he) hb
    | all caller lines => cases hsingle

def Moment.proceed (u : Setup κ σ) : Nat → Moment κ σ → Moment κ σ
  | pieces + 1, ⟨s, w :: others⟩ => proceed u pieces ((w.next u s).beside others)
  | _, m => m

theorem Moment.proceed_reaches (u : Setup κ σ) (pieces : Nat) (m : Moment κ σ) :
    Reaches u m (m.proceed u pieces) := by
  induction pieces generalizing m with
  | zero => exact .refl
  | succ pieces ih =>
    obtain ⟨s, hands⟩ := m
    cases hands with
    | nil => exact .refl
    | cons w others => exact .head (.work s w others) (ih _)

/-- On a pool, the first line of a chain has come out true and the chain has asked whether it is
cancelled. It is cancelled only then, which comes off, and the second line is submitted behind it. -/
theorem line_submitted_after_cancel :
    let u : Setup Unit Unit := ⟨.verbatim, .owned, .immediate, 8⟩
    let first : Line := some ['a', '=', '=', 'a']
    let second : Line := some ['b', '=', '=', 'b']
    ∃ m m' : Moment Unit Unit, Asked u () (.all ⟨(), none⟩ [first, second]) 0 m ∧
      (m.state.step u (.cancel 0)).1 = .cancelled true ∧
      Reaches u ⟨(m.state.step u (.cancel 0)).2, m.hands⟩ m' ∧
      m.state.submissions 0 = [first] ∧ m'.state.submissions 0 = [first, second] := by
  intro u first second
  let q : Request Unit := .all ⟨(), none⟩ [first, second]
  let s := (State.start u ()).run u [q.step]
  let chain : Chain Unit := ⟨⟨(), none⟩, first, 2, [second], 0⟩
  let taken : Moment Unit Unit :=
    ⟨{ s with tasks := s.tasks.eraseIdx 0 }, [.perform ⟨⟨(), none⟩, first, 1⟩ (some chain)]⟩
  let m := taken.proceed u 6
  have hreturned : Returned u () [q.step] q 0 := ⟨[], [], rfl, rfl⟩
  have htask : Move u ⟨s, []⟩ taken := .task s [] rfl
  have hasked : Asked u () q 0 m := by
    obtain ⟨s₀, others, hs₀, hn, hs⟩ := hreturned.asked
    exact ⟨s₀, others, hs₀, hn, (hs.tail htask).trans (taken.proceed_reaches u 6)⟩
  have hpending : m.state.status 0 = .pending := by decide +kernel
  have hlength : 0 < m.state.futures.length := by decide +kernel
  refine ⟨m, Moment.proceed u 1 ⟨(m.state.step u (.cancel 0)).2, m.hands⟩, hasked,
    (cancelled_iff u hlength).mpr (.inl hpending), Moment.proceed_reaches u 1 _, ?_, ?_⟩
  · decide +kernel
  · decide +kernel

end Conditions.Evaluator
