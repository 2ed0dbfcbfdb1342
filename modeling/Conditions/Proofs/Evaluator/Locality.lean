import Conditions.Proofs.Evaluator.Work

/-!
# What belongs to an owner

A future made for a line of a chain belongs to the future of the chain, and any other to itself.
Work serves one owner: it adds to the lists of a state only what belongs to that owner, and changes
no record of another. All that is seen of the others stays as it is.
-/

set_option autoImplicit false

namespace Conditions.Evaluator
open Expression

variable {κ σ : Type}

namespace State

def Stands (s : State κ σ) (n : Nat) : Prop := n < s.futures.length ∧ s.owner n = n

def eventsOf (s : State κ σ) (n : Nat) : List (Event κ) := s.history.filter fun e => e.owner = n

def tasksOf (s : State κ σ) (n : Nat) : List (Task κ) :=
  s.tasks.filter fun t => s.owner t.future = n

def deliveriesOf (s : State κ σ) (n : Nat) : List Delivery :=
  s.deliveries.filter fun d => s.owner d.future = n

def dutiesOf (s : State κ σ) (n : Nat) : List (Work κ) :=
  (s.tasksOf n).map (fun t => .perform t (s.waiting t.future)) ++
    (s.deliveriesOf n).map fun d => .deliver d.future d.result (s.waiting d.future)

section
variable {s s' : State κ σ} {n f : Nat}

theorem eventsOf_tell (h : s.owner f = n) (act : Act κ) :
    (s.tell f act).eventsOf n = s.eventsOf n ++ [⟨f, n, act⟩] := by
  simp [eventsOf, tell, h]

theorem eventsOf_congr (h : s'.history = s.history) : s'.eventsOf n = s.eventsOf n := by
  rw [eventsOf, h, eventsOf]

theorem dutiesOf_eq_nil : s.dutiesOf n = [] ↔ s.tasksOf n = [] ∧ s.deliveriesOf n = [] := by
  simp [dutiesOf]

theorem tasksOf_push {t : Task κ} (h : s.owner t.future = n) :
    State.tasksOf { s with tasks := s.tasks ++ [t] } n = s.tasksOf n ++ [t] := by
  have ht : List.filter (fun t => decide (s.owner t.future = n)) [t] = [t] := by simp [h]
  calc State.tasksOf { s with tasks := s.tasks ++ [t] } n
      = List.filter (fun t => decide (s.owner t.future = n)) (s.tasks ++ [t]) := rfl
    _ = s.tasksOf n ++ [t] := by rw [List.filter_append, ht, tasksOf]

theorem deliveriesOf_push {d : Delivery} (h : s.owner d.future = n) :
    State.deliveriesOf { s with deliveries := s.deliveries ++ [d] } n =
      s.deliveriesOf n ++ [d] := by
  have hd : List.filter (fun d => decide (s.owner d.future = n)) [d] = [d] := by simp [h]
  calc State.deliveriesOf { s with deliveries := s.deliveries ++ [d] } n
      = List.filter (fun d => decide (s.owner d.future = n)) (s.deliveries ++ [d]) := rfl
    _ = s.deliveriesOf n ++ [d] := by rw [List.filter_append, hd, deliveriesOf]

theorem owner_park (s : State κ σ) (f g : Nat) (chain : Option (Chain κ)) :
    (s.park f chain).owner g = s.owner g := by
  cases chain with
  | none => rfl
  | some chain => exact owner_revise (by intro _; rfl) f g

theorem tasksOf_park (s : State κ σ) (f : Nat) (chain : Option (Chain κ)) :
    (s.park f chain).tasksOf n = s.tasksOf n := by
  have ht : (s.park f chain).tasks = s.tasks := by cases chain <;> rfl
  simp only [tasksOf, ht, owner_park]

theorem deliveriesOf_park (s : State κ σ) (f : Nat) (chain : Option (Chain κ)) :
    (s.park f chain).deliveriesOf n = s.deliveriesOf n := by
  have hd : (s.park f chain).deliveries = s.deliveries := by cases chain <;> rfl
  simp only [deliveriesOf, hd, owner_park]

theorem eventsOf_park (s : State κ σ) (f : Nat) (chain : Option (Chain κ)) :
    (s.park f chain).eventsOf n = s.eventsOf n :=
  eventsOf_congr (by cases chain <;> rfl)

end

theorem Stands.lt {s : State κ σ} {n f : Nat} (h : s.Stands n) (hf : s.owner f = n) :
    f < s.futures.length := by
  rcases Nat.lt_or_ge f s.futures.length with hlt | hle
  · exact hlt
  · rw [← owner_of_le hle, hf]
    exact h.1

end State

def Work.owner (s : State κ σ) : Work κ → Nat
  | .submit t _ => s.owner t.future
  | .perform t _ => s.owner t.future
  | .evaluate t _ => s.owner t.future
  | .complete future _ _ => s.owner future
  | .deliver future _ _ => s.owner future
  | .resume chain _ => chain.outer
  | .lines _ outer _ _ => outer
  | .put _ outer _ _ _ => outer

theorem Work.owner_congr {s s' : State κ σ} (h : ∀ f, s'.owner f = s.owner f) (w : Work κ) :
    w.owner s' = w.owner s := by
  cases w with
  | resume | lines | put => rfl
  | submit | perform | evaluate | complete | deliver => exact h _

def Moment.dutiesOf (m : Moment κ σ) (n : Nat) : List (Work κ) :=
  (m.hands.filter fun w => w.owner m.state = n) ++ m.state.dutiesOf n

theorem Moment.dutiesOf_append (s : State κ σ) (mine others : List (Work κ)) (n : Nat) :
    Moment.dutiesOf ⟨s, mine ++ others⟩ n = (mine.filter fun w => w.owner s = n) ++
      ((others.filter fun w => w.owner s = n) ++ s.dutiesOf n) := by
  rw [dutiesOf, List.filter_append, List.append_assoc]

theorem Moment.dutiesOf_beside {m : Moment κ σ} {others : List (Work κ)} {n : Nat}
    (h : ∀ w ∈ others, w.owner m.state ≠ n) : (m.beside others).dutiesOf n = m.dutiesOf n := by
  have hnone : (others.filter fun w => decide (w.owner m.state = n)) = [] := by
    refine List.filter_eq_nil_iff.mpr fun w hmem => ?_
    simpa using h w hmem
  rw [beside, dutiesOf_append, hnone, List.nil_append, dutiesOf]

def Adds {α : Type} (p : α → Prop) (l l' : List α) : Prop := ∃ new, l' = l ++ new ∧ ∀ a ∈ new, p a

namespace Adds

variable {α : Type} {p : α → Prop} {l l' l'' : List α}

theorem none (h : l' = l) : Adds p l l' := ⟨[], by simp [h], by simp⟩

theorem one {a : α} (h : p a) : Adds p l (l ++ [a]) := ⟨[a], rfl, by simpa using h⟩

theorem mono {r : α → Prop} (h : Adds p l l') (hp : ∀ a, p a → r a) : Adds r l l' := by
  obtain ⟨new, he, hnew⟩ := h
  exact ⟨new, he, fun a ha => hp a (hnew a ha)⟩

theorem trans (h : Adds p l l') (h' : Adds p l' l'') : Adds p l l'' := by
  obtain ⟨new, he, hnew⟩ := h
  obtain ⟨new', he', hnew'⟩ := h'
  refine ⟨new ++ new', by rw [he', he, List.append_assoc], fun a ha => ?_⟩
  rcases List.mem_append.mp ha with ha | ha
  · exact hnew a ha
  · exact hnew' a ha

theorem forall_mem {r : α → Prop} (h : Adds p l l') (hl : ∀ a ∈ l, r a) (hp : ∀ a, p a → r a) :
    ∀ a ∈ l', r a := by
  obtain ⟨new, he, hnew⟩ := h
  intro a ha
  rcases List.mem_append.mp (he ▸ ha) with ha | ha
  · exact hl a ha
  · exact hp a (hnew a ha)

theorem filter_eq (h : Adds p l l') {q : α → Bool} (hq : ∀ a, p a → q a = false) :
    l'.filter q = l.filter q := by
  obtain ⟨new, he, hnew⟩ := h
  have hnone : new.filter q = [] := by
    apply List.filter_eq_nil_iff.mpr
    intro a ha
    simp [hq a (hnew a ha)]
  rw [he, List.filter_append, hnone, List.append_nil]

end Adds

structure Serves (n : Nat) (s s' : State κ σ) : Prop where
  length : s.futures.length ≤ s'.futures.length
  owner : ∀ f < s.futures.length, s'.owner f = s.owner f
  record : ∀ f, s'.owner f ≠ n → s'.futures[f]? = s.futures[f]?
  tasks : Adds (fun t => t.future < s'.futures.length ∧ s'.owner t.future = n) s.tasks s'.tasks
  deliveries : Adds (fun d => d.future < s'.futures.length ∧ s'.owner d.future = n)
    s.deliveries s'.deliveries
  history : Adds (fun e => e.owner = n) s.history s'.history

namespace Serves

variable {n : Nat} {s s' s'' : State κ σ}

theorem of_aside (h : State.Aside s s') : Serves n s s' where
  length := Nat.le_of_eq (by rw [h.futures])
  owner f _ := State.owner_congr (by rw [h.futures])
  record f _ := by rw [h.futures]
  tasks := .none h.tasks
  deliveries := .none h.deliveries
  history := .none h.history

theorem refl (s : State κ σ) : Serves n s s := of_aside (.refl s)

theorem say (s : State κ σ) (note : Note) : Serves n s (s.say note) :=
  of_aside (State.say_aside s note)

theorem trans (h : Serves n s s') (h' : Serves n s' s'') : Serves n s s'' := by
  have hown : ∀ f, f < s'.futures.length ∧ s'.owner f = n →
      f < s''.futures.length ∧ s''.owner f = n := by
    intro f hf
    exact ⟨Nat.lt_of_lt_of_le hf.1 h'.length, (h'.owner f hf.1).trans hf.2⟩
  refine ⟨Nat.le_trans h.length h'.length, ?_, ?_, ?_, ?_, h.history.trans h'.history⟩
  · intro f hf
    exact (h'.owner f (Nat.lt_of_lt_of_le hf h.length)).trans (h.owner f hf)
  · intro f hf
    have hr := h'.record f hf
    exact hr.trans (h.record f (by rwa [← State.owner_congr hr]))
  · exact (h.tasks.mono fun t => hown t.future).trans h'.tasks
  · exact (h.deliveries.mono fun d => hown d.future).trans h'.deliveries

theorem tell {f : Nat} (hf : s.owner f = n) (act : Act κ) : Serves n s (s.tell f act) where
  length := Nat.le_refl _
  owner _ _ := rfl
  record _ _ := rfl
  tasks := .none rfl
  deliveries := .none rfl
  history := .one hf

theorem revise {f : Nat} (hf : s.owner f = n) {change : Future κ → Future κ}
    (hc : ∀ x, (change x).outer = x.outer) : Serves n s (s.revise f change) where
  length := by simp
  owner g _ := State.owner_revise hc f g
  record g hg := by
    refine State.revise_ne ?_ change
    rintro rfl
    exact hg ((State.owner_revise hc f f).trans hf)
  tasks := .none rfl
  deliveries := .none rfl
  history := .none rfl

theorem settle {f : Nat} (hf : s.owner f = n) (result : Bool) :
    Serves n s (s.settle f result) := by
  obtain ⟨change, act, he, ho, -⟩ := s.settle_eq f result
  rw [he]
  exact (revise hf ho).trans (tell ((State.owner_revise ho f f).trans hf) act)

theorem park {f : Nat} (hf : s.owner f = n) (chain : Option (Chain κ)) :
    Serves n s (s.park f chain) := by
  cases chain with
  | none => exact refl s
  | some chain => exact revise hf fun _ => rfl

theorem pushTask {t : Task κ} (ht : t.future < s.futures.length) (ho : s.owner t.future = n) :
    Serves n s { s with tasks := s.tasks ++ [t] } where
  length := Nat.le_refl _
  owner _ _ := rfl
  record _ _ := rfl
  tasks := .one ⟨ht, ho⟩
  deliveries := .none rfl
  history := .none rfl

theorem pushDelivery {d : Delivery} (hd : d.future < s.futures.length)
    (ho : s.owner d.future = n) : Serves n s { s with deliveries := s.deliveries ++ [d] } where
  length := Nat.le_refl _
  owner _ _ := rfl
  record _ _ := rfl
  tasks := .none rfl
  deliveries := .one ⟨hd, ho⟩
  history := .none rfl

end Serves

namespace State

theorem allot_old (s : State κ σ) (outer : Option Nat) {f : Nat} (hf : f < s.futures.length) :
    (s.allot outer).2.futures[f]? = s.futures[f]? := by
  simp [allot, List.getElem?_append_left hf]

theorem allot_new (s : State κ σ) (outer : Option Nat) :
    (s.allot outer).2.futures[s.futures.length]? = some ⟨.pending, false, outer, none⟩ := by
  simp [allot]

theorem owner_allot_new (s : State κ σ) (outer : Option Nat) :
    (s.allot outer).2.owner s.futures.length = outer.getD s.futures.length := by
  rw [owner, allot_new, Option.bind_some]

end State

theorem Serves.allot (s : State κ σ) (outer : Option Nat) :
    Serves (outer.getD s.futures.length) s (s.allot outer).2 where
  length := by simp [State.allot]
  owner f hf := State.owner_congr (State.allot_old s outer hf)
  record f hf := by
    rcases Nat.lt_trichotomy f s.futures.length with h | rfl | h
    · exact State.allot_old s outer h
    · exact absurd (State.owner_allot_new s outer) hf
    · have hlength : (s.allot outer).2.futures.length ≤ f := by
        simpa [State.allot] using Nat.succ_le_of_lt h
      rw [List.getElem?_eq_none hlength, List.getElem?_eq_none (Nat.le_of_lt h)]
  tasks := .none rfl
  deliveries := .none rfl
  history := .none rfl

namespace State

theorem Stands.of_serves {s s' : State κ σ} {n k : Nat} (h : Serves n s s') (hk : s.Stands k) :
    s'.Stands k :=
  ⟨Nat.lt_of_lt_of_le hk.1 h.length, (h.owner k hk.1).trans hk.2⟩

end State

/-- Whom a piece of work serves does not change by work for one owner. -/
theorem Serves.owner_work {s s' : State κ σ} {n : Nat} (h : Serves n s s') {w : Work κ}
    (hw : s.Stands (w.owner s)) : w.owner s' = w.owner s := by
  cases w with
  | resume | lines | put => rfl
  | submit | perform | evaluate | complete | deliver => exact h.owner _ (hw.lt rfl)

structure Moment.Sound (m : Moment κ σ) : Prop where
  owner : ∀ f < m.state.futures.length, m.state.Stands (m.state.owner f)
  task : ∀ t ∈ m.state.tasks, t.future < m.state.futures.length
  delivery : ∀ d ∈ m.state.deliveries, d.future < m.state.futures.length
  hand : ∀ w ∈ m.hands, m.state.Stands (w.owner m.state)
  event : ∀ e ∈ m.state.history, m.state.Stands e.owner

theorem Moment.Sound.fewer {s : State κ σ} {hands hands' : List (Work κ)}
    (hm : Moment.Sound ⟨s, hands⟩) (h : ∀ w ∈ hands', w ∈ hands) : Moment.Sound ⟨s, hands'⟩ :=
  ⟨hm.owner, hm.task, hm.delivery, fun w hw => hm.hand w (h w hw), hm.event⟩

theorem Moment.Sound.of_serves {m m' : Moment κ σ} {n : Nat} (hm : m.Sound)
    (h : Serves n m.state m'.state) (hn : m'.state.Stands n)
    (hw : ∀ w ∈ m'.hands, w.owner m'.state = n ∨ w ∈ m.hands) : m'.Sound where
  owner f hf := by
    by_cases ho : m'.state.owner f = n
    · rwa [ho]
    · have hr := h.record f ho
      have hlt : f < m.state.futures.length := by
        rw [List.getElem?_eq_getElem hf] at hr
        exact (List.getElem?_eq_some_iff.mp hr.symm).1
      rw [State.owner_congr hr]
      exact (hm.owner f hlt).of_serves h
  task := h.tasks.forall_mem (fun t ht => Nat.lt_of_lt_of_le (hm.task t ht) h.length)
    fun _ ht => ht.1
  delivery := h.deliveries.forall_mem (fun d hd => Nat.lt_of_lt_of_le (hm.delivery d hd) h.length)
    fun _ hd => hd.1
  hand w hmem := by
    rcases hw w hmem with ho | hold
    · rwa [ho]
    · rw [h.owner_work (hm.hand w hold)]
      exact (hm.hand w hold).of_serves h
  event := h.history.forall_mem (fun e he => (hm.event e he).of_serves h) fun e he => by rwa [he]

structure Spares (k : Nat) (m m' : Moment κ σ) : Prop where
  duties : (m'.dutiesOf k).Perm (m.dutiesOf k)
  events : m'.state.eventsOf k = m.state.eventsOf k
  record : ∀ f, m.state.owner f = k ∨ m'.state.owner f = k →
    m'.state.futures[f]? = m.state.futures[f]?

theorem State.dutiesOf_congr {s s' : State κ σ} {k : Nat} (ht : s'.tasksOf k = s.tasksOf k)
    (hd : s'.deliveriesOf k = s.deliveriesOf k)
    (hr : ∀ f, s.owner f = k → s'.waiting f = s.waiting f) : s'.dutiesOf k = s.dutiesOf k := by
  have htask : ∀ t ∈ s.tasksOf k, Work.perform t (s'.waiting t.future) =
      .perform t (s.waiting t.future) := by
    intro t hmem
    rw [hr _ (by simpa using (List.mem_filter.mp hmem).2)]
  have hdelivery : ∀ d ∈ s.deliveriesOf k,
      Work.deliver d.future d.result (s'.waiting d.future) =
        .deliver d.future d.result (s.waiting d.future) := by
    intro d hmem
    rw [hr _ (by simpa using (List.mem_filter.mp hmem).2)]
  rw [dutiesOf, dutiesOf, ht, hd, List.map_congr_left htask, List.map_congr_left hdelivery]

namespace Serves

variable {n k : Nat}

theorem eventsOf_ne {s s' : State κ σ} (h : Serves n s s') (hk : k ≠ n) :
    s'.eventsOf k = s.eventsOf k := by
  apply h.history.filter_eq
  intro e he
  simpa [he] using hk.symm

theorem tasksOf_ne {m m' : Moment κ σ} (h : Serves n m.state m'.state) (hm : m.Sound)
    (hk : k ≠ n) : m'.state.tasksOf k = m.state.tasksOf k := by
  have hnew : m'.state.tasksOf k =
      m.state.tasks.filter fun t => m'.state.owner t.future = k := by
    apply h.tasks.filter_eq
    intro t ht
    simpa [ht.2] using hk.symm
  rw [hnew, State.tasksOf]
  apply List.filter_congr
  intro t ht
  rw [h.owner _ (hm.task t ht)]

theorem deliveriesOf_ne {m m' : Moment κ σ} (h : Serves n m.state m'.state) (hm : m.Sound)
    (hk : k ≠ n) : m'.state.deliveriesOf k = m.state.deliveriesOf k := by
  have hnew : m'.state.deliveriesOf k =
      m.state.deliveries.filter fun d => m'.state.owner d.future = k := by
    apply h.deliveries.filter_eq
    intro d hd
    simpa [hd.2] using hk.symm
  rw [hnew, State.deliveriesOf]
  apply List.filter_congr
  intro d hd
  rw [h.owner _ (hm.delivery d hd)]

theorem spares {s : State κ σ} {mine others : List (Work κ)} {m' : Moment κ σ}
    (h : Serves n s m'.state) (hm : Moment.Sound ⟨s, mine ++ others⟩) (hk : k ≠ n)
    (hs : s.Stands k) (hw : ∀ w ∈ mine, w.owner s = n)
    (hw' : ∀ w ∈ m'.hands, w.owner m'.state = n) :
    Spares k ⟨s, mine ++ others⟩ (m'.beside others) where
  duties := by
    have hrecord : ∀ f, s.owner f = k → m'.state.waiting f = s.waiting f := by
      intro f hf
      refine State.waiting_congr (h.record f ?_)
      rw [h.owner f (hs.lt hf), hf]
      exact hk
    have hmine : (mine.filter fun w => decide (w.owner s = k)) = [] := by
      refine List.filter_eq_nil_iff.mpr fun w hmem => ?_
      simpa [hw w hmem] using hk.symm
    have hmine' : (m'.hands.filter fun w => decide (w.owner m'.state = k)) = [] := by
      refine List.filter_eq_nil_iff.mpr fun w hmem => ?_
      simpa [hw' w hmem] using hk.symm
    have hothers : (others.filter fun w => decide (w.owner m'.state = k)) =
        others.filter fun w => decide (w.owner s = k) := by
      apply List.filter_congr
      intro w hmem
      rw [h.owner_work (hm.hand w (List.mem_append_right _ hmem))]
    have htasks : m'.state.tasksOf k = s.tasksOf k := h.tasksOf_ne hm hk
    have hdeliveries : m'.state.deliveriesOf k = s.deliveriesOf k := h.deliveriesOf_ne hm hk
    rw [Moment.beside, Moment.dutiesOf_append, Moment.dutiesOf_append, hmine, hmine', hothers,
      State.dutiesOf_congr htasks hdeliveries hrecord]
  events := h.eventsOf_ne hk
  record f hf := by
    refine h.record f ?_
    rcases hf with hf | hf
    · rw [h.owner f (hs.lt hf), hf]
      exact hk
    · change m'.state.owner f = k at hf
      rw [hf]
      exact hk

end Serves

end Conditions.Evaluator
