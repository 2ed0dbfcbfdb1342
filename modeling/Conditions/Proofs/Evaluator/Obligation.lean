import Conditions.Proofs.Evaluator.Course

/-!
# Obligations

A pending future is waited for by exactly one queued task or delivery, its own or that of the one
line its chain waits for. What a future has come to stays, and none gets a result twice.
-/

set_option autoImplicit false

namespace Conditions.Evaluator
open Expression

variable {κ σ : Type}

namespace State

def outstanding (s : State κ σ) (f : Nat) : Nat :=
  (s.tasks.filter fun t => t.future = f).length +
    (s.deliveries.filter fun d => d.future = f).length

def pendingLines (s : State κ σ) (n : Nat) : List Nat :=
  (List.range s.futures.length).filter fun f =>
    f ≠ n ∧ s.owner f = n ∧ s.status f = .pending

def Obliged (s : State κ σ) (n : Nat) : Request κ → Prop
  | .one _ _ => s.pendingLines n = [] ∧ s.outstanding n = 1
  | .all _ _ => s.outstanding n = 0 ∧ ∃ g, s.pendingLines n = [g] ∧ s.outstanding g = 1 ∧
      (s.waiting g).map Chain.outer = some n

end State

section
variable {s : State κ σ} {n : Nat}

theorem tasks_filter_future {f : Nat} (hf : s.owner f = n) :
    s.tasks.filter (fun t => t.future = f) = (s.tasksOf n).filter fun t => t.future = f := by
  rw [State.tasksOf, List.filter_filter]
  apply List.filter_congr
  intro t _
  by_cases ht : t.future = f
  · simp [ht, hf]
  · simp [ht]

theorem deliveries_filter_future {f : Nat} (hf : s.owner f = n) :
    s.deliveries.filter (fun d => d.future = f) =
      (s.deliveriesOf n).filter fun d => d.future = f := by
  rw [State.deliveriesOf, List.filter_filter]
  apply List.filter_congr
  intro d _
  by_cases hd : d.future = f
  · simp [hd, hf]
  · simp [hd]

theorem outstanding_task {t : Task κ} (ht : s.tasksOf n = [t]) (hd : s.deliveriesOf n = [])
    {f : Nat} (hf : s.owner f = n) : s.outstanding f = if t.future = f then 1 else 0 := by
  rw [State.outstanding, tasks_filter_future hf, deliveries_filter_future hf, ht, hd]
  by_cases h : t.future = f <;> simp [h]

theorem outstanding_delivery {d : Delivery} (ht : s.tasksOf n = [])
    (hd : s.deliveriesOf n = [d]) {f : Nat} (hf : s.owner f = n) :
    s.outstanding f = if d.future = f then 1 else 0 := by
  rw [State.outstanding, tasks_filter_future hf, deliveries_filter_future hf, ht, hd]
  by_cases h : d.future = f <;> simp [h]

theorem filter_range_eq_singleton {length g : Nat} (hg : g < length) {p : Nat → Bool}
    (hp : ∀ f < length, p f = true ↔ f = g) : (List.range length).filter p = [g] := by
  have hcongr : (List.range length).filter p = (List.range length).filter (· == g) := by
    apply List.filter_congr
    intro f hf
    have hiff := hp f (List.mem_range.mp hf)
    rw [Bool.eq_iff_iff, hiff, beq_iff_eq]
  rw [hcongr, List.filter_beq, List.count_range, if_pos hg]
  rfl

theorem Lives.obliged {q : Request κ} (h : Lives q n ⟨s, []⟩) (hp : s.status n = .pending) :
    s.Obliged n q := by
  have hn : s.Stands n := h.stands
  obtain ⟨w, passes, g, line, rest, -, -, hw, hwait, hqueue⟩ := h.queued hn.2 hp
  have houtstanding : ∀ f, s.owner f = n → s.outstanding f = if g = f then 1 else 0 := by
    intro f hf
    rcases hqueue with ⟨t, ht, hd, rfl⟩ | ⟨d, ht, hd, rfl⟩
    · exact outstanding_task ht hd hf
    · exact outstanding_delivery ht hd hf
  have hg : s.status g = .pending := by
    rcases hw.expected.1 with hg | hc
    · exact hg
    · exact absurd (hp.symm.trans (hw.cancelled hc)) (by simp)
  cases q with
  | one caller only =>
    have hgn : g = n := hw.eq_of_single
    constructor
    · apply List.filter_eq_nil_iff.mpr
      intro f _
      simp only [decide_eq_true_eq]
      rintro ⟨hfn, hf, hfp⟩
      have hmem := hw.awake.pending f hf hfp
      simp [hgn, hfn] at hmem
    · rw [houtstanding n hn.2, if_pos hgn]
  | all caller lines =>
    have hgn : g ≠ n := hw.chained.mp rfl
    refine ⟨by rw [houtstanding n hn.2, if_neg hgn], g, ?_, ?_, by rw [hwait]; rfl⟩
    · apply filter_range_eq_singleton (hn.lt hw.owner)
      intro f _
      simp only [decide_eq_true_eq]
      constructor
      · rintro ⟨hfn, hf, hfp⟩
        have hmem := hw.awake.pending f hf hfp
        simpa [hfn] using hmem
      · rintro rfl
        exact ⟨hgn, hw.owner, hg⟩
    · rw [houtstanding g hw.owner, if_pos rfl]

end

def Keeps (s s' : State κ σ) : Prop := ∀ f, s.status f ≠ .pending → s'.status f = s.status f

namespace Keeps

variable {s s' s'' : State κ σ}

theorem of_futures (h : s'.futures = s.futures) : Keeps s s' :=
  fun _ _ => State.status_congr (by rw [h])

theorem trans (h : Keeps s s') (h' : Keeps s' s'') : Keeps s s'' := by
  intro f hf
  have hs := h f hf
  exact (h' f (by rwa [hs])).trans hs

theorem of_fades (h : Fades s s') : Keeps s s' := by
  intro f hf
  rcases h.status f with hs | ⟨hp, -⟩
  · exact hs
  · exact absurd hp hf

theorem settle (g : Nat) (result : Bool) : Keeps s (s.settle g result) := by
  intro f hf
  by_cases hfg : g = f
  · subst hfg
    cases hs : s.status g with
    | pending => exact absurd hs hf
    | cancelled => exact State.status_settle_cancelled hs result
    | finished _ =>
      simp only [State.settle, hs]
      exact hs
  · exact State.status_congr (State.settle_ne hfg result)

theorem park (g : Nat) (chain : Option (Chain κ)) : Keeps s (s.park g chain) := by
  intro f _
  cases chain with
  | none => rfl
  | some chain => exact State.status_revise (by intro _; rfl) g f

theorem allot (s : State κ σ) (outer : Option Nat) : Keeps s (s.allot outer).2 := by
  intro f hf
  apply State.status_congr
  apply State.allot_old
  rcases Nat.lt_or_ge f s.futures.length with hlt | hle
  · exact hlt
  · exact absurd (by rw [State.status, List.getElem?_eq_none hle]) hf

theorem next (u : Setup κ σ) (s : State κ σ) (w : Work κ) : Keeps s (w.next u s).state := by
  cases w with
  | submit t chain =>
    simp only [Work.next]
    split
    · exact of_futures rfl
    · split
      · exact of_futures rfl
      all_goals
        have hpush : Keeps s { s with tasks := s.tasks ++ [t] } := of_futures rfl
        exact hpush.trans (park _ _)
  | perform t chain => exact of_futures rfl
  | evaluate t chain =>
    obtain ⟨outcome, asked, s', ha, he⟩ := State.attempt_eq u s t
    simp only [Work.next, he]
    cases outcome <;> exact of_futures ha.futures
  | complete g result chain =>
    simp only [Work.next]
    split
    · exact of_futures rfl
    · have hpush : Keeps s { s with deliveries := s.deliveries ++ [⟨g, result⟩] } := of_futures rfl
      exact hpush.trans (park _ _)
    · exact of_futures rfl
  | deliver g result chain => exact settle g result
  | resume chain result =>
    cases result with
    | true => exact of_futures rfl
    | false =>
      have hsay : Keeps s (s.say (.chainFailed chain.line)) := of_futures rfl
      exact hsay.trans (settle _ _)
  | lines caller outer number todo =>
    simp only [Work.next]
    split
    · exact of_futures rfl
    · cases todo with
      | nil => exact settle outer true
      | cons line rest => exact of_futures rfl
  | put caller outer number line rest => exact (allot s (some outer)).trans (of_futures rfl)

end Keeps

theorem Move.keeps {u : Setup κ σ} {m m' : Moment κ σ} (h : Move u m m') :
    Keeps m.state m'.state := by
  cases h with
  | turn s h => exact .of_futures rfl
  | work s w others => exact .next u s w
  | compile s others line => exact .of_futures (State.compile_aside s line).futures
  | evaluate s others caller line =>
    exact .of_futures (State.evaluate_aside u s caller line).futures
  | evaluateAll s others caller lines =>
    exact .of_futures (State.evaluateAll_aside u s caller lines).futures
  | request s others q =>
    cases q with
    | one caller line => exact (Keeps.allot s none).trans (.of_futures rfl)
    | all caller lines => exact .allot s none
  | task s others ht => exact .of_futures rfl
  | delivery s others hd => exact .of_futures rfl
  | withdraw s others f h => exact .of_fades (withdraw_fades u s f)
  | refuse s others refusing => exact .of_futures rfl
  | shut s others => exact .of_futures rfl

theorem Reaches.keeps {u : Setup κ σ} {m m' : Moment κ σ} (h : Reaches u m m') :
    Keeps m.state m'.state := by
  induction h with
  | refl => exact .of_futures rfl
  | tail _ step ih => exact ih.trans step.keeps

def Expected (events : List (Event κ)) : Prop := ∀ e ∈ events, e.act ≠ .unexpected

namespace Expected

theorem append {events rest : List (Event κ)} (h : Expected events) (h' : Expected rest) :
    Expected (events ++ rest) := by
  intro e he
  rcases List.mem_append.mp he with he | he
  · exact h e he
  · exact h' e he

theorem acts {n g : Nat} {all : List (Act κ)} (h : .unexpected ∉ all) :
    Expected (acts n g all) := by
  intro e he hact
  obtain ⟨act, hmem, rfl⟩ := List.mem_map.mp he
  exact h (hact ▸ hmem)

theorem tale (n : Nat) (caller : Caller κ) (passes : List (Pass κ)) :
    Expected (tale n caller passes) := by
  intro e he
  obtain ⟨p, -, hmem⟩ := List.mem_flatMap.mp he
  exact acts (by simp) e hmem

theorem closing (q : Request κ) (n : Nat) {act : Act κ} (h : act ≠ .unexpected) :
    Expected (q.closing n act) := by
  unfold Request.closing
  split
  · exact acts (by simpa using h.symm)
  · exact fun e he => absurd he List.not_mem_nil

theorem verdict (caller : Caller κ) (line : Line) (v : Verdict κ) :
    v.act caller line ≠ .unexpected := by
  cases v <;> simp [Verdict.act]

theorem ending {q : Request κ} {n : Nat} {passed : List Line} {status : Status}
    {tail : List (Event κ)} (h : Ending q n passed status tail) : Expected tail := by
  cases h with
  | passed h => exact closing q n (by simp)
  | failed h hv =>
    refine (acts ?_).append (closing q n (by simp))
    simpa using (verdict _ _ _).symm
  | between h => exact fun e he => absurd he List.not_mem_nil
  | skipped h => exact acts (by simp)
  | dropped h =>
    apply acts
    simpa using (verdict _ _ _).symm
  | late h hv =>
    refine (acts ?_).append (acts (by simp))
    simpa using (verdict _ _ _).symm

theorem holds {q : Request κ} {n : Nat} {s : State κ σ} {w : Work κ} (h : Holds q n s w) :
    Expected (s.eventsOf n) := by
  cases w with
  | submit t chain | perform t chain | evaluate t chain =>
    obtain ⟨passes, rest, -, -, -, he⟩ := h
    rw [he]
    exact (tale _ _ _).append (acts (by simp))
  | complete g result chain | deliver g result chain =>
    obtain ⟨passes, line, rest, v, -, -, -, he⟩ := h
    rw [he]
    refine (tale _ _ _).append (acts ?_)
    simpa using (verdict _ _ v).symm
  | resume chain result =>
    obtain ⟨passes, g, line, rest, v, -, -, -, -, he⟩ := h
    rw [he]
    refine (tale _ _ _).append (acts ?_)
    simpa using (verdict _ _ v).symm
  | lines caller outer number todo | put caller outer number line rest =>
    obtain ⟨passes, -, -, -, -, -, -, he⟩ := h
    rw [he]
    exact tale _ _ _

theorem lives {q : Request κ} {n : Nat} {m : Moment κ σ} (h : Lives q n m) :
    Expected (m.state.eventsOf n) := by
  rcases h.course with ⟨-, ho⟩ | ⟨w, -, hw⟩
  · obtain ⟨passes, tail, he, hend⟩ := ho.ending
    rw [he]
    exact (tale _ _ _).append (ending hend)
  · exact holds hw

theorem orderly {m : Moment κ σ} (h : m.Orderly) : Expected m.state.history := by
  intro e he
  obtain ⟨q, hq⟩ := h.lives e.owner (h.sound.event e he)
  exact lives hq e (List.mem_filter.mpr ⟨he, by simp⟩)

end Expected

/-- In every state that a run comes to, a pending future that was returned has one obligation, and
without obligations no future at all is pending; what is done stays so, and no future is settled
after it has had its result. -/
theorem one_obligation_each (u : Setup κ σ) (state : σ) (steps : List (Step κ)) :
    let s := (State.start u state).run u steps
    (∀ q n, Returned u state steps q n → s.status n = .pending → s.Obliged n q) ∧
    (s.tasks = [] → s.deliveries = [] →
      ∀ f < s.futures.length, s.status f ≠ .pending) ∧
    (∀ f later, s.status f ≠ .pending → (s.run u later).status f = s.status f) ∧
    ∀ e ∈ s.history, e.act ≠ .unexpected := by
  intro s
  have hs : Moment.Orderly ⟨s, []⟩ := run_orderly u state steps
  refine ⟨?_, ?_, ?_, Expected.orderly hs⟩
  · intro q n hq hp
    exact Lives.obliged hq.lives hp
  · intro ht hd f hf hp
    obtain ⟨q, hq⟩ := hs.lives _ (hs.sound.owner f hf)
    obtain ⟨w, passes, g, line, rest, hduties, -⟩ := hq.queued rfl hp
    have hnone : s.dutiesOf (s.owner f) = [] := by
      apply State.dutiesOf_eq_nil.mpr
      rw [State.tasksOf, State.deliveriesOf, ht, hd]
      exact ⟨rfl, rfl⟩
    rw [hnone] at hduties
    cases hduties
  · intro f later hf
    exact Reaches.keeps (run_reaches s later) f hf

end Conditions.Evaluator
