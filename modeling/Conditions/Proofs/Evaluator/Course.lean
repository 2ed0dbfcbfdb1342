import Conditions.Proofs.Evaluator.Life
import Mathlib.Data.List.Perm.Basic

/-!
# The course of a run

Each move either serves one owner or shows nothing to anybody. A request is born with one duty, and
from then on it lives, whatever else is asked of the evaluator.
-/

set_option autoImplicit false

namespace Conditions.Evaluator
open Expression

variable {κ σ : Type}

structure Advances (m m' : Moment κ σ) : Prop where
  sound : m'.Sound
  lives : ∀ q n, Lives q n m → Lives q n m'
  born : ∀ n, m'.state.Stands n → m.state.Stands n ∨ ∃ q, Lives q n m'

structure Moment.Orderly (m : Moment κ σ) : Prop where
  sound : m.Sound
  lives : ∀ n, m.state.Stands n → ∃ q, Lives q n m

theorem Moment.Orderly.advance {m m' : Moment κ σ} (hm : m.Orderly) (h : Advances m m') :
    m'.Orderly := by
  refine ⟨h.sound, fun n hn => ?_⟩
  rcases h.born n hn with hs | hq
  · obtain ⟨q, hq⟩ := hm.lives n hs
    exact ⟨q, h.lives q n hq⟩
  · exact hq

namespace Advances

variable {m m' : Moment κ σ}

/-- A move that shows nothing to anybody and makes no future. -/
theorem of_spares (hs : m'.Sound) (hf : m'.state.futures = m.state.futures)
    (h : ∀ n, Spares n m m') : Advances m m' where
  sound := hs
  lives q n hl := (h n).lives (Nat.le_of_eq (by rw [hf])) hl
  born n hn := by
    left
    have ho := State.owner_congr (f := n) (by rw [hf] : m'.state.futures[n]? = m.state.futures[n]?)
    exact ⟨hf ▸ hn.1, ho.symm.trans hn.2⟩

theorem of_serves {s : State κ σ} (mine : List (Work κ)) {others : List (Work κ)} {n : Nat}
    (hm : Moment.Sound ⟨s, mine ++ others⟩) (hs : Serves n s m'.state)
    (hn : m'.state.Stands n) (hw : ∀ w ∈ mine, w.owner s = n)
    (hw' : ∀ w ∈ m'.hands, w.owner m'.state = n)
    (hown : ∀ q, Lives q n ⟨s, mine ++ others⟩ → Lives q n (m'.beside others))
    (hborn : s.Stands n ∨ ∃ q, Lives q n (m'.beside others)) :
    Advances ⟨s, mine ++ others⟩ (m'.beside others) where
  sound := by
    refine hm.of_serves hs hn fun w hmem => ?_
    rcases List.mem_append.mp hmem with h | h
    · exact .inl (hw' w h)
    · exact .inr (List.mem_append_right _ h)
  lives q k hl := by
    by_cases hk : k = n
    · subst hk
      exact hown q hl
    · exact (hs.spares hm hk hl.stands hw hw').lives hs.length hl
  born k hk := by
    by_cases hkn : k = n
    · subst hkn
      exact hborn
    · left
      have hstands : m'.state.Stands k := hk
      have hr := hs.record k (by rw [hstands.2]; exact hkn)
      refine ⟨?_, (State.owner_congr hr).symm.trans hstands.2⟩
      rw [List.getElem?_eq_getElem hstands.1] at hr
      exact (List.getElem?_eq_some_iff.mp hr.symm).1

end Advances

section
variable {s s' : State κ σ} {others : List (Work κ)}

theorem Spares.of_aside (h : State.Aside s s') (n : Nat) :
    Spares n ⟨s, others⟩ ⟨s', others⟩ where
  duties := by
    have howner : ∀ f, s'.owner f = s.owner f := fun f => State.owner_congr (by rw [h.futures])
    have ht : s'.tasksOf n = s.tasksOf n := by simp only [State.tasksOf, h.tasks, howner]
    have hd : s'.deliveriesOf n = s.deliveriesOf n := by
      simp only [State.deliveriesOf, h.deliveries, howner]
    have hw : ∀ f, s.owner f = n → s'.waiting f = s.waiting f :=
      fun f _ => State.waiting_congr (by rw [h.futures])
    simp only [Moment.dutiesOf, State.dutiesOf_congr ht hd hw, Work.owner_congr howner]
    exact .refl _
  events := State.eventsOf_congr h.history
  record f _ := by rw [h.futures]

theorem Moment.Sound.of_aside (hm : Moment.Sound ⟨s, others⟩) (h : State.Aside s s') :
    Moment.Sound ⟨s', others⟩ where
  owner f hf := by
    have ho : s'.owner f = s.owner f := State.owner_congr (by rw [h.futures])
    change s'.Stands (s'.owner f)
    rw [ho]
    exact (hm.owner f (h.futures ▸ hf)).of_serves (@Serves.of_aside κ σ 0 s s' h)
  task t ht := by
    change t.future < s'.futures.length
    rw [h.futures]
    exact hm.task t (h.tasks ▸ ht)
  delivery d hd := by
    change d.future < s'.futures.length
    rw [h.futures]
    exact hm.delivery d (h.deliveries ▸ hd)
  hand w hw := by
    have hserves := @Serves.of_aside κ σ 0 s s' h
    change s'.Stands (w.owner s')
    rw [hserves.owner_work (hm.hand w hw)]
    exact (hm.hand w hw).of_serves hserves
  event e he := (hm.event e (h.history ▸ he)).of_serves (@Serves.of_aside κ σ 0 s s' h)

theorem aside_advances (hm : Moment.Sound ⟨s, others⟩) (h : State.Aside s s') :
    Advances ⟨s, others⟩ ⟨s', others⟩ :=
  .of_spares (hm.of_aside h) h.futures (Spares.of_aside h)

theorem turn_advances {others' : List (Work κ)} (hm : Moment.Sound ⟨s, others⟩)
    (h : others.Perm others') : Advances ⟨s, others⟩ ⟨s, others'⟩ := by
  refine .of_spares (hm.fewer fun w hw => h.mem_iff.mpr hw) rfl fun n => ⟨?_, rfl, fun _ _ => rfl⟩
  exact ((h.filter _).symm).append_right _

end

theorem filter_eraseIdx_perm {α : Type} {l : List α} {i : Nat} {a : α} (h : l[i]? = some a)
    (p : α → Bool) : ([a].filter p ++ (l.eraseIdx i).filter p).Perm (l.filter p) := by
  obtain ⟨hi, ha⟩ := List.getElem?_eq_some_iff.mp h
  have hperm := (ha ▸ List.getElem_cons_eraseIdx_perm hi : (a :: l.eraseIdx i).Perm l)
  rw [← List.filter_append]
  exact hperm.filter p

theorem taken_task_spares (s : State κ σ) (others : List (Work κ)) {i : Nat} {t : Task κ}
    (h : s.tasks[i]? = some t) (n : Nat) : Spares n ⟨s, others⟩
      ⟨{ s with tasks := s.tasks.eraseIdx i }, .perform t (s.waiting t.future) :: others⟩ where
  duties := by
    have hp := filter_eraseIdx_perm h fun t => decide (s.owner t.future = n)
    have hmap := (hp.map fun t => Work.perform t (s.waiting t.future)).append_right
      ((s.deliveriesOf n).map fun d => Work.deliver d.future d.result (s.waiting d.future))
    rw [List.map_append, List.append_assoc] at hmap
    have hhand : ([t].filter fun t => decide (s.owner t.future = n)).map
        (fun t => Work.perform t (s.waiting t.future)) =
          [Work.perform t (s.waiting t.future)].filter fun w => decide (w.owner s = n) := by
      by_cases ho : s.owner t.future = n <;> simp [ho, Work.owner]
    rw [hhand] at hmap
    have hduties := Moment.dutiesOf_append { s with tasks := s.tasks.eraseIdx i }
      [.perform t (s.waiting t.future)] others n
    exact hduties ▸ (List.perm_append_comm_assoc _ _ _).trans (hmap.append_left _)
  events := rfl
  record _ _ := rfl

theorem taken_delivery_spares (s : State κ σ) (others : List (Work κ)) {i : Nat} {d : Delivery}
    (h : s.deliveries[i]? = some d) (n : Nat) : Spares n ⟨s, others⟩
      ⟨{ s with deliveries := s.deliveries.eraseIdx i },
        .deliver d.future d.result (s.waiting d.future) :: others⟩ where
  duties := by
    have hp := filter_eraseIdx_perm h fun d => decide (s.owner d.future = n)
    have hmap := (hp.map fun d =>
      Work.deliver d.future d.result (s.waiting d.future)).append_left
        ((s.tasksOf n).map fun t => Work.perform t (s.waiting t.future))
    rw [List.map_append] at hmap
    have hhand : ([d].filter fun d => decide (s.owner d.future = n)).map
        (fun d => Work.deliver d.future d.result (s.waiting d.future)) =
          [Work.deliver d.future d.result (s.waiting d.future)].filter
            fun w => decide (w.owner s = n) := by
      by_cases ho : s.owner d.future = n <;> simp [ho, Work.owner]
    rw [hhand] at hmap
    have hqueue := (List.perm_append_comm_assoc _ _ _).trans hmap
    have hduties := Moment.dutiesOf_append { s with deliveries := s.deliveries.eraseIdx i }
      [.deliver d.future d.result (s.waiting d.future)] others n
    exact hduties ▸ (List.perm_append_comm_assoc _ _ _).trans (hqueue.append_left _)
  events := rfl
  record _ _ := rfl

theorem taken_task_advances {s : State κ σ} {others : List (Work κ)}
    (hm : Moment.Sound ⟨s, others⟩) {i : Nat} {t : Task κ} (h : s.tasks[i]? = some t) :
    Advances ⟨s, others⟩
      ⟨{ s with tasks := s.tasks.eraseIdx i }, .perform t (s.waiting t.future) :: others⟩ := by
  refine .of_spares ⟨hm.owner, ?_, hm.delivery, ?_, hm.event⟩ rfl (taken_task_spares s others h)
  · intro t' ht
    exact hm.task t' (List.mem_of_mem_eraseIdx ht)
  · intro w hw
    rcases List.mem_cons.mp hw with rfl | hw
    · exact hm.owner t.future (hm.task t (List.mem_of_getElem? h))
    · exact hm.hand w hw

theorem taken_delivery_advances {s : State κ σ} {others : List (Work κ)}
    (hm : Moment.Sound ⟨s, others⟩) {i : Nat} {d : Delivery} (h : s.deliveries[i]? = some d) :
    Advances ⟨s, others⟩
      ⟨{ s with deliveries := s.deliveries.eraseIdx i },
        .deliver d.future d.result (s.waiting d.future) :: others⟩ := by
  refine .of_spares ⟨hm.owner, hm.task, ?_, ?_, hm.event⟩ rfl (taken_delivery_spares s others h)
  · intro d' hd
    exact hm.delivery d' (List.mem_of_mem_eraseIdx hd)
  · intro w hw
    rcases List.mem_cons.mp hw with rfl | hw
    · exact hm.owner d.future (hm.delivery d (List.mem_of_getElem? h))
    · exact hm.hand w hw

/-- The work in front is the one duty for the request it is done for. -/
theorem Lives.holds {q : Request κ} {n : Nat} {s : State κ σ} {w : Work κ}
    {others : List (Work κ)} (h : Lives q n ⟨s, w :: others⟩) (hw : w.owner s = n) :
    Holds q n s w ∧ (∀ w' ∈ others, w'.owner s ≠ n) ∧ s.dutiesOf n = [] := by
  have hd : Moment.dutiesOf ⟨s, w :: others⟩ n =
      w :: ((others.filter fun w' => w'.owner s = n) ++ s.dutiesOf n) := by
    simp [Moment.dutiesOf, hw]
  rcases h.course with ⟨hnil, -⟩ | ⟨w', hone, hholds⟩
  · rw [hd] at hnil
    cases hnil
  · rw [hd, List.cons.injEq, List.append_eq_nil_iff, List.filter_eq_nil_iff] at hone
    exact ⟨hone.1 ▸ hholds, fun w' hmem => by simpa using hone.2.1 w' hmem, hone.2.2⟩

theorem work_advances {u : Setup κ σ} {s : State κ σ} {w : Work κ} {others : List (Work κ)}
    (hm : Moment.Orderly ⟨s, w :: others⟩) :
    Advances ⟨s, w :: others⟩ ((w.next u s).beside others) := by
  have hn : s.Stands (w.owner s) := hm.sound.hand w List.mem_cons_self
  have hnext : ∀ q, Lives q (w.owner s) ⟨s, w :: others⟩ →
      Onward q (w.owner s) s (w.next u s) ∧ Lives q (w.owner s) ((w.next u s).beside others) := by
    intro q hl
    obtain ⟨hholds, hothers, hquiet⟩ := hl.holds rfl
    have hon := hholds.onward (u := u) hn hquiet (hm.sound.fewer (by simp))
    exact ⟨hon, hon.lives (hn.of_serves hon.serves) fun w' hmem =>
      ⟨hm.sound.hand w' (List.mem_cons_of_mem _ hmem), hothers w' hmem⟩⟩
  obtain ⟨q, hq⟩ := hm.lives (w.owner s) hn
  have hon := (hnext q hq).1
  exact Advances.of_serves [w] hm.sound hon.serves (hn.of_serves hon.serves) (by simp)
    hon.hands (fun q' hl => (hnext q' hl).2) (.inl hn)

structure Fades (s s' : State κ σ) : Prop where
  owner : ∀ f, s'.owner f = s.owner f
  waiting : ∀ f, s'.waiting f = s.waiting f
  notified : ∀ f, s'.notified f = s.notified f
  status : ∀ f, s'.status f = s.status f ∨ s.status f = .pending ∧ s'.status f = .cancelled
  tasks : s'.tasks = s.tasks
  deliveries : s'.deliveries = s.deliveries
  history : s'.history = s.history

namespace Fades

variable {s s' s'' : State κ σ}

theorem refl (s : State κ σ) : Fades s s :=
  ⟨fun _ => rfl, fun _ => rfl, fun _ => rfl, fun _ => .inl rfl, rfl, rfl, rfl⟩

theorem trans (h : Fades s s') (h' : Fades s' s'') : Fades s s'' where
  owner f := (h'.owner f).trans (h.owner f)
  waiting f := (h'.waiting f).trans (h.waiting f)
  notified f := (h'.notified f).trans (h.notified f)
  status f := by
    rcases h.status f with hs | ⟨hp, hc⟩ <;> rcases h'.status f with hs' | ⟨hp', hc'⟩
    · exact .inl (hs'.trans hs)
    · exact .inr ⟨hs.symm.trans hp', hc'⟩
    · exact .inr ⟨hp, hs'.trans hc⟩
    · exact .inr ⟨hp, hc'⟩
  tasks := h'.tasks.trans h.tasks
  deliveries := h'.deliveries.trans h.deliveries
  history := h'.history.trans h.history

theorem cancel (s : State κ σ) (f : Nat) : Fades s (s.cancel f) := by
  unfold State.cancel
  split
  · rename_i hp
    refine ⟨State.owner_revise (by intro _; rfl) f, State.waiting_revise (by intro _; rfl) f,
      State.notified_revise (by intro _; rfl) f, fun g => ?_, rfl, rfl, rfl⟩
    by_cases hg : f = g
    · subst hg
      by_cases hlt : f < s.futures.length
      · exact .inr ⟨hp, State.status_setStatus_self hlt _⟩
      · left
        simp [State.status, State.setStatus, State.revise,
          List.getElem?_eq_none (Nat.le_of_not_lt hlt)]
    · exact .inl (State.status_congr (State.revise_ne hg _))
  · exact refl s

theorem dutiesOf (h : Fades s s') (n : Nat) : s'.dutiesOf n = s.dutiesOf n := by
  refine State.dutiesOf_congr ?_ ?_ fun f _ => h.waiting f
  · simp only [State.tasksOf, h.tasks, h.owner]
  · simp only [State.deliveriesOf, h.deliveries, h.owner]

theorem duties (h : Fades s s') (hands : List (Work κ)) (n : Nat) :
    Moment.dutiesOf ⟨s', hands⟩ n = Moment.dutiesOf ⟨s, hands⟩ n := by
  simp only [Moment.dutiesOf, h.dutiesOf, Work.owner_congr h.owner]

theorem expected (h : Fades s s') {f : Nat} (ho : s.Open f) : s'.Open f := by
  refine ⟨?_, (h.notified f).trans ho.2⟩
  rcases h.status f with hs | ⟨-, hc⟩
  · rw [hs]
    exact ho.1
  · exact .inr hc

theorem awake (h : Fades s s') {n : Nat} {busy : List Nat} (ha : Awake n s busy) :
    Awake n s' busy where
  expected := h.expected ha.expected
  unwaited := (h.waiting n).trans ha.unwaited
  pending f hf hp := by
    rcases h.status f with hs | ⟨-, hc⟩
    · exact ha.pending f ((h.owner f).symm.trans hf) (hs.symm.trans hp)
    · exact absurd (hp.symm.trans hc) (by simp)

theorem working (h : Fades s s') {q : Request κ} {n : Nat} (hc : s'.status n = .cancelled)
    {passed : List Line} {g : Nat} {line : Line} {rest : List Line}
    (hw : Working q n s passed g line rest) : Working q n s' passed g line rest where
  lines := hw.lines
  chained := hw.chained
  owner := (h.owner g).trans hw.owner
  awake := h.awake hw.awake
  expected := h.expected hw.expected
  cancelled _ := hc

theorem holds (h : Fades s s') {q : Request κ} {n : Nat} (hc : s'.status n = .cancelled)
    {w : Work κ} (hw : Holds q n s w) : Holds q n s' w :=
  hw.mono (State.eventsOf_congr h.history) h.awake (h.working hc)

end Fades

theorem Serves.cancel {n f : Nat} {s : State κ σ} (hf : s.owner f = n) :
    Serves n s (s.cancel f) := by
  unfold State.cancel
  split
  · exact .revise hf (by intro _; rfl)
  · exact .refl s

theorem State.status_cancel_self {s : State κ σ} {f : Nat} (hf : f < s.futures.length)
    (ho : s.Open f) : (s.cancel f).status f = .cancelled := by
  unfold cancel
  rcases ho.1 with hp | hc
  · rw [if_pos hp]
    exact status_setStatus_self hf _
  · rw [if_neg (by simp [hc])]
    exact hc

theorem withdraw_fades (u : Setup κ σ) (s : State κ σ) (f : Nat) : Fades s (s.withdraw u f) := by
  unfold State.withdraw
  split
  · exact (Fades.cancel s f).trans (.cancel _ _)
  · exact .cancel s f

/-- To cancel a future of a request is to cancel the request. -/
theorem Working.withdraw {u : Setup κ σ} {q : Request κ} {n : Nat} {s : State κ σ}
    {passed : List Line} {g : Nat} {line : Line} {rest : List Line}
    (hw : Working q n s passed g line rest) (hn : s.Stands n) {passes : Nat}
    (hwait : s.waiting g = q.chain? n passes line rest) {f : Nat} (hf : s.owner f = n)
    (hp : s.status f = .pending) :
    Serves n s (s.withdraw u f) ∧ (s.withdraw u f).status n = .cancelled := by
  by_cases hfn : f = n
  · subst hfn
    have heq : s.withdraw u f = s.cancel f := by
      simp [State.withdraw, hp, hw.awake.unwaited]
    rw [heq]
    exact ⟨.cancel hf, State.status_cancel_self hn.1 hw.awake.expected⟩
  · have hfg : f = g := by
      have hmem := hw.awake.pending f hf hp
      simpa [hfn] using hmem
    subst hfg
    cases q with
    | one caller only => exact absurd (hw.chained.mpr hfn) Bool.false_ne_true
    | all caller lines =>
      have heq : s.withdraw u f = (s.cancel f).cancel n := by
        simp only [State.withdraw, hp, hwait, Request.chain?]
        rfl
      have hfade := Fades.cancel s f
      have hserves : Serves n s (s.cancel f) := .cancel hf
      rw [heq]
      exact ⟨hserves.trans (.cancel ((hfade.owner n).trans hn.2)),
        State.status_cancel_self (hn.of_serves hserves).1 (hfade.expected hw.awake.expected)⟩

/-- With empty hands, a request for which something is pending is queued with its next line. -/
theorem Lives.queued {q : Request κ} {n : Nat} {s : State κ σ} (h : Lives q n ⟨s, []⟩) {f : Nat}
    (hf : s.owner f = n) (hp : s.status f = .pending) :
    ∃ (w : Work κ) (passes : List (Pass κ)) (g : Nat) (line : Line) (rest : List Line),
      s.dutiesOf n = [w] ∧ Holds q n s w ∧ Working q n s (Pass.lines passes) g line rest ∧
        s.waiting g = q.chain? n passes.length line rest ∧
          ((∃ t : Task κ, s.tasksOf n = [t] ∧ s.deliveriesOf n = [] ∧ t.future = g) ∨
            ∃ d : Delivery, s.tasksOf n = [] ∧ s.deliveriesOf n = [d] ∧ d.future = g) := by
  rcases h.course with ⟨-, ho⟩ | ⟨w, hd, hw⟩
  · exact absurd hp (ho.done f hf)
  · have hd' : s.dutiesOf n = [w] := hd
    have hqueue := hd'
    rw [State.dutiesOf, List.append_eq_singleton_iff] at hqueue
    rcases hqueue with ⟨ht, hds⟩ | ⟨ht, hds⟩
    · rw [List.map_eq_nil_iff] at ht
      obtain ⟨d, hone, rfl⟩ := List.map_eq_singleton_iff.mp hds
      have hdeliver := hw
      obtain ⟨passes, line, rest, v, hwork, -, hc, -⟩ := hdeliver
      exact ⟨_, passes, d.future, line, rest, hd', hw, hwork, hc, .inr ⟨d, ht, hone, rfl⟩⟩
    · rw [List.map_eq_nil_iff] at hds
      obtain ⟨t, hone, rfl⟩ := List.map_eq_singleton_iff.mp ht
      have hperform := hw
      obtain ⟨passes, rest, hwork, -, hc, -⟩ := hperform
      exact ⟨_, passes, t.future, t.line, rest, hd', hw, hwork, hc, .inl ⟨t, hone, hds, rfl⟩⟩

/-- A future that is done, or is none yet, cannot be cancelled. -/
theorem withdraw_aside {u : Setup κ σ} {s : State κ σ} {f : Nat}
    (h : ¬(s.status f = .pending ∧ f < s.futures.length)) : State.Aside s (s.withdraw u f) := by
  have hfade := withdraw_fades u s f
  refine ⟨?_, hfade.tasks, hfade.deliveries, hfade.history⟩
  by_cases hlt : f < s.futures.length
  · have hnot : s.status f ≠ .pending := fun hp => h ⟨hp, hlt⟩
    simp [State.withdraw, State.cancel, hnot]
  · have hle := Nat.le_of_not_lt hlt
    have hmodify : s.futures.modify f (fun x => { x with status := .cancelled }) = s.futures :=
      List.modify_eq_self hle
    have hpending : s.status f = .pending := by
      rw [State.status, List.getElem?_eq_none hle]
    simp [State.withdraw, State.cancel, hpending, State.waiting_of_le hle, State.setStatus,
      State.revise, hmodify]

/-- To cancel a pending future of a request, the returned one or with no hand at work, is to cancel
the request. -/
theorem Lives.withdraw {u : Setup κ σ} {q : Request κ} {s : State κ σ} {hands : List (Work κ)}
    {f : Nat} (hl : Lives q (s.owner f) ⟨s, hands⟩) (hp : s.status f = .pending)
    (h : s.owner f = f ∨ hands = []) :
    Serves (s.owner f) s (s.withdraw u f) ∧
      (s.withdraw u f).status (s.owner f) = .cancelled ∧
        Lives q (s.owner f) ⟨s.withdraw u f, hands⟩ := by
  have hfade := withdraw_fades u s f
  have hn : s.Stands (s.owner f) := hl.stands
  have hwork : ∃ w, Moment.dutiesOf ⟨s, hands⟩ (s.owner f) = [w] ∧ Holds q (s.owner f) s w := by
    rcases hl.course with ⟨-, ho⟩ | hw
    · exact absurd hp (ho.done f rfl)
    · exact hw
  obtain ⟨w, hd, hholds⟩ := hwork
  have hcancel : Serves (s.owner f) s (s.withdraw u f) ∧
      (s.withdraw u f).status (s.owner f) = .cancelled := by
    rcases h with hf | rfl
    · obtain ⟨busy, hawake⟩ := hholds.awake
      rw [hf] at hn hawake ⊢
      have heq : s.withdraw u f = s.cancel f := by
        simp [State.withdraw, hp, hawake.unwaited]
      rw [heq]
      exact ⟨.cancel hf, State.status_cancel_self hn.1 hawake.expected⟩
    · obtain ⟨-, passes, g, line, rest, -, -, hw, hwait, -⟩ := hl.queued rfl hp
      exact hw.withdraw hn hwait rfl hp
  exact ⟨hcancel.1, hcancel.2, hn.of_serves hcancel.1,
    .inr ⟨w, (hfade.duties hands _).trans hd, hfade.holds hcancel.2 hholds⟩⟩

theorem withdraw_advances {u : Setup κ σ} {s : State κ σ} {hands : List (Work κ)}
    (hm : Moment.Orderly ⟨s, hands⟩) {f : Nat} (h : s.owner f = f ∨ hands = []) :
    Advances ⟨s, hands⟩ ⟨s.withdraw u f, hands⟩ := by
  by_cases hp : s.status f = .pending ∧ f < s.futures.length
  · have hn := hm.sound.owner f hp.2
    obtain ⟨q, hq⟩ := hm.lives _ hn
    have hserves := (hq.withdraw (u := u) hp.1 h).1
    have hown : ∀ q', Lives q' (s.owner f) ⟨s, [] ++ hands⟩ →
        Lives q' (s.owner f) (Moment.beside ⟨s.withdraw u f, []⟩ hands) :=
      fun q' hl => (hl.withdraw hp.1 h).2.2
    exact Advances.of_serves [] hm.sound hserves (hn.of_serves hserves) nofun (by simp) hown
      (.inl hn)
  · exact aside_advances hm.sound (withdraw_aside hp)

/-- A cancellation is for the sake of the owner of the future alone. -/
theorem withdraw_serves {u : Setup κ σ} {s : State κ σ} (hm : Moment.Orderly ⟨s, []⟩)
    (f : Nat) : Serves (s.owner f) s (s.withdraw u f) := by
  by_cases hp : s.status f = .pending ∧ f < s.futures.length
  · obtain ⟨q, hq⟩ := hm.lives _ (hm.sound.owner f hp.2)
    exact (hq.withdraw hp.1 (.inr rfl)).1
  · exact .of_aside (withdraw_aside hp)

section
variable {s : State κ σ} {others : List (Work κ)} (hm : Moment.Sound ⟨s, others⟩)
include hm

theorem eventsOf_new : s.eventsOf s.futures.length = [] := by
  apply List.filter_eq_nil_iff.mpr
  intro e he
  have hlt := (hm.event e he).1
  simpa using Nat.ne_of_lt hlt

theorem dutiesOf_new : s.dutiesOf s.futures.length = [] := by
  apply State.dutiesOf_eq_nil.mpr
  constructor
  · apply List.filter_eq_nil_iff.mpr
    intro t ht
    have hlt := (hm.owner t.future (hm.task t ht)).1
    simpa using Nat.ne_of_lt hlt
  · apply List.filter_eq_nil_iff.mpr
    intro d hd
    have hlt := (hm.owner d.future (hm.delivery d hd)).1
    simpa using Nat.ne_of_lt hlt

theorem owner_ne_new {f : Nat} (hf : f < s.futures.length) :
    (s.allot none).2.owner f ≠ s.futures.length := by
  rw [State.owner_congr (State.allot_old s none hf)]
  exact Nat.ne_of_lt (hm.owner f hf).1

theorem awake_new (busy : List Nat) : Awake s.futures.length (s.allot none).2 busy where
  expected := by
    have hnew := State.allot_new s none
    constructor
    · left
      rw [State.status, hnew]
    · rw [State.notified, hnew]
      rfl
  unwaited := by
    rw [State.waiting, State.allot_new]
    rfl
  pending f hf _ := by
    rcases Nat.lt_trichotomy f s.futures.length with h | h | h
    · exact absurd hf (owner_ne_new hm h)
    · simp [h]
    · have hle : (s.allot none).2.futures.length ≤ f := by
        simpa [State.allot] using Nat.succ_le_of_lt h
      rw [State.owner_of_le hle] at hf
      simp [hf]

omit hm in
theorem opened_serves (q : Request κ) : Serves s.futures.length s (q.opened s).state := by
  have hallot : Serves s.futures.length s (s.allot none).2 := Serves.allot s none
  cases q with
  | one caller line => exact hallot.trans (.tell (State.owner_allot_new s none) _)
  | all caller lines => exact hallot

theorem opened_onward (q : Request κ) : Onward q s.futures.length s (q.opened s) := by
  have hnew : (s.allot none).2.owner s.futures.length = s.futures.length :=
    State.owner_allot_new s none
  have hawake := awake_new hm []
  cases q with
  | one caller line =>
    have hholds : Holds (.one caller line) s.futures.length
        ((s.allot none).2.tell s.futures.length (.submitted line))
        (.submit ⟨caller, line, s.futures.length⟩ none) := by
      refine ⟨[], [], ⟨rfl, by simp [Request.chained], hnew, ?_, ?_, fun h => h⟩, rfl, rfl, ?_⟩
      · have hnext := awake_new hm [s.futures.length]
        exact ⟨hnext.expected, hnext.unwaited, hnext.pending⟩
      · exact (Alike.of_futures rfl).expected hnew hawake.expected
      · rw [State.eventsOf_tell hnew]
        change s.eventsOf s.futures.length ++ _ = _
        rw [eventsOf_new hm]
        rfl
    exact .hold hm (dutiesOf_new hm) (opened_serves (.one caller line)) rfl rfl hholds
  | all caller lines =>
    have hholds : Holds (.all caller lines) s.futures.length (s.allot none).2
        (.lines caller s.futures.length 1 lines) :=
      ⟨[], rfl, hawake, rfl, rfl, rfl, rfl, eventsOf_new hm⟩
    exact .hold hm (dutiesOf_new hm) (opened_serves (.all caller lines)) rfl rfl hholds

theorem opened_lives (q : Request κ) : Lives q s.futures.length ((q.opened s).beside others) := by
  refine (opened_onward hm q).lives ⟨?_, ?_⟩ fun w hmem =>
    ⟨hm.hand w hmem, Nat.ne_of_lt (hm.hand w hmem).1⟩
  · cases q with
    | one caller line => simp [Request.opened, State.tell, State.allot]
    | all caller lines => simp [Request.opened, State.allot]
  · cases q with
    | one caller line => exact State.owner_allot_new s none
    | all caller lines => exact State.owner_allot_new s none

theorem request_advances (q : Request κ) : Advances ⟨s, others⟩ ((q.opened s).beside others) := by
  have hlives := opened_lives hm q
  have hon := opened_onward hm q
  refine Advances.of_serves [] hm hon.serves hlives.stands nofun hon.hands ?_
    (.inr ⟨q, hlives⟩)
  intro q' hl
  exact absurd hl.stands.1 (Nat.lt_irrefl _)

end

section
variable {u : Setup κ σ} {m m' : Moment κ σ}

theorem Move.advances (h : Move u m m') (hm : m.Orderly) : Advances m m' := by
  cases h with
  | turn s h => exact turn_advances hm.sound h
  | work s w others => exact work_advances hm
  | compile s others line => exact aside_advances hm.sound (State.compile_aside s line)
  | evaluate s others caller line =>
    exact aside_advances hm.sound (State.evaluate_aside u s caller line)
  | evaluateAll s others caller lines =>
    exact aside_advances hm.sound (State.evaluateAll_aside u s caller lines)
  | request s others q => exact request_advances hm.sound q
  | task s others ht => exact taken_task_advances hm.sound ht
  | delivery s others hd => exact taken_delivery_advances hm.sound hd
  | withdraw s others f h => exact withdraw_advances hm h
  | refuse s others refusing => exact aside_advances hm.sound ⟨rfl, rfl, rfl, rfl⟩
  | shut s others => exact aside_advances hm.sound ⟨rfl, rfl, rfl, rfl⟩

theorem Reaches.orderly (h : Reaches u m m') (hm : m.Orderly) : m'.Orderly := by
  induction h with
  | refl => exact hm
  | tail _ step ih => exact ih.advance (step.advances ih)

theorem Reaches.lives (h : Reaches u m m') (hm : m.Orderly) {q : Request κ} {n : Nat}
    (hl : Lives q n m) : Lives q n m' := by
  induction h with
  | refl => exact hl
  | tail hr step ih => exact (step.advances (Reaches.orderly hr hm)).lives q n ih

end

section
variable (u : Setup κ σ) (state : σ)

theorem start_orderly : Moment.Orderly ⟨State.start u state, []⟩ where
  sound :=
    { owner := fun f hf => absurd hf (Nat.not_lt_zero f)
      task := by simp [State.start]
      delivery := by simp [State.start]
      hand := nofun
      event := by simp [State.start] }
  lives n hn := absurd hn.1 (Nat.not_lt_zero n)

theorem run_orderly (steps : List (Step κ)) :
    Moment.Orderly ⟨(State.start u state).run u steps, []⟩ :=
  (run_reaches _ steps).orderly (start_orderly u state)

end

theorem run_append (u : Setup κ σ) (s : State κ σ) (steps rest : List (Step κ)) :
    s.run u (steps ++ rest) = (s.run u steps).run u rest := by
  induction steps generalizing s with
  | nil => rfl
  | cons step steps ih => exact ih _

def Returned (u : Setup κ σ) (state : σ) (steps : List (Step κ)) (q : Request κ) (n : Nat) :
    Prop :=
  ∃ before after, steps = before ++ q.step :: after ∧
    (((State.start u state).run u before).step u q.step).1 = .future n

/-- On the way to a moment there was the request, and the future `n` was made for it. -/
def Asked (u : Setup κ σ) (state : σ) (q : Request κ) (n : Nat) (m : Moment κ σ) : Prop :=
  ∃ s others, Reaches u ⟨State.start u state, []⟩ ⟨s, others⟩ ∧ n = s.futures.length ∧
    Reaches u ((q.opened s).beside others) m

section
variable {u : Setup κ σ} {state : σ} {q : Request κ} {n : Nat} {m : Moment κ σ}

theorem Asked.reached (h : Asked u state q n m) : Reaches u ⟨State.start u state, []⟩ m := by
  obtain ⟨s, others, hs, -, hm⟩ := h
  exact hs.trans (.head (.request s others q) hm)

theorem Asked.lives (h : Asked u state q n m) : Lives q n m := by
  obtain ⟨s, others, hs, rfl, hm⟩ := h
  have hbefore := Reaches.orderly hs (start_orderly u state)
  have hopened := hbefore.advance ((Move.request (u := u) s others q).advances hbefore)
  exact Reaches.lives hm hopened (opened_lives hbefore.sound q)

theorem Returned.asked {steps : List (Step κ)} (h : Returned u state steps q n) :
    Asked u state q n ⟨(State.start u state).run u steps, []⟩ := by
  obtain ⟨before, after, rfl, hanswer⟩ := h
  refine ⟨(State.start u state).run u before, [], run_reaches _ before, ?_, ?_⟩
  · cases q <;> exact (Answer.future.inj hanswer).symm
  · rw [Moment.beside_nil, run_append]
    exact (request_reaches _ q).trans (run_reaches _ after)

theorem Returned.lives {steps : List (Step κ)} (h : Returned u state steps q n) :
    Lives q n ⟨(State.start u state).run u steps, []⟩ :=
  h.asked.lives

end

end Conditions.Evaluator
