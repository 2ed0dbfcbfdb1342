import Conditions.Proofs.Evaluator.Story

/-!
# The life of a request

Every piece of work for a request leaves it over or with one duty that knows how far it has got, and
no other move takes anything from it. A request therefore lives in all moments after it was made.
-/

set_option autoImplicit false

namespace Conditions.Evaluator
open Expression

variable {κ σ : Type}

structure Onward (q : Request κ) (n : Nat) (s : State κ σ) (m : Moment κ σ) : Prop where
  serves : Serves n s m.state
  hands : ∀ w ∈ m.hands, w.owner m.state = n
  course : m.dutiesOf n = [] ∧ Over q n m.state ∨ ∃ w, m.dutiesOf n = [w] ∧ Holds q n m.state w

namespace Onward

variable {q : Request κ} {n : Nat} {s s' : State κ σ} {hands : List (Work κ)}

theorem lives {m : Moment κ σ} (h : Onward q n s m) (hn : m.state.Stands n)
    {others : List (Work κ)} (ho : ∀ w ∈ others, s.Stands (w.owner s) ∧ w.owner s ≠ n) :
    Lives q n (m.beside others) := by
  refine ⟨hn, ?_⟩
  have hothers : ∀ w ∈ others, w.owner m.state ≠ n := by
    intro w hw
    rw [h.serves.owner_work (ho w hw).1]
    exact (ho w hw).2
  rw [Moment.dutiesOf_beside hothers]
  exact h.course

theorem quiet (hm : Moment.Sound ⟨s, hands⟩) (hq : s.dutiesOf n = []) (hs : Serves n s s')
    (ht : s'.tasks = s.tasks) (hd : s'.deliveries = s.deliveries) : s'.dutiesOf n = [] := by
  rw [State.dutiesOf_eq_nil] at hq ⊢
  constructor
  · rw [State.tasksOf, ht, ← hq.1, State.tasksOf]
    exact List.filter_congr fun t hmem => by rw [hs.owner _ (hm.task t hmem)]
  · rw [State.deliveriesOf, hd, ← hq.2, State.deliveriesOf]
    exact List.filter_congr fun d hmem => by rw [hs.owner _ (hm.delivery d hmem)]

theorem hold {w : Work κ} (hm : Moment.Sound ⟨s, hands⟩) (hq : s.dutiesOf n = [])
    (hs : Serves n s s') (ht : s'.tasks = s.tasks) (hd : s'.deliveries = s.deliveries)
    (h : Holds q n s' w) : Onward q n s ⟨s', [w]⟩ where
  serves := hs
  hands w' hmem := by
    rw [List.mem_singleton.mp hmem]
    exact h.owner
  course := .inr ⟨w, by simp [Moment.dutiesOf, h.owner, quiet hm hq hs ht hd], h⟩

theorem rest (hm : Moment.Sound ⟨s, hands⟩) (hq : s.dutiesOf n = [])
    (hs : Serves n s s') (ht : s'.tasks = s.tasks) (hd : s'.deliveries = s.deliveries)
    (h : Over q n s') : Onward q n s ⟨s', []⟩ where
  serves := hs
  hands _ hmem := by cases hmem
  course := .inl ⟨by simp [Moment.dutiesOf, quiet hm hq hs ht hd], h⟩

theorem queue {w : Work κ} (hs : Serves n s s') (hq : s'.dutiesOf n = [w])
    (h : Holds q n s' w) : Onward q n s ⟨s', []⟩ where
  serves := hs
  hands _ hmem := by cases hmem
  course := .inr ⟨w, by simp [Moment.dutiesOf, hq], h⟩

end Onward

section
variable {q : Request κ} {n : Nat} {s : State κ σ}

theorem eventsOf_settle_pending {g : Nat} (hp : s.status g = .pending) (ho : s.owner g = n)
    {result : Bool} :
    (s.settle g result).eventsOf n = s.eventsOf n ++ acts n g [.settled result] := by
  have howner : (s.setStatus g (.finished result)).owner g = n :=
    (State.owner_revise (by intro _; rfl) g g).trans ho
  rw [State.settle_pending hp, State.eventsOf_tell howner]
  rfl

theorem eventsOf_settle_cancelled {g : Nat} (hc : s.status g = .cancelled)
    (hnot : s.notified g = false) (ho : s.owner g = n) {result : Bool} :
    (s.settle g result).eventsOf n = s.eventsOf n ++ acts n g [.dropped] := by
  have howner : (s.notify g).owner g = n := (State.owner_revise (by intro _; rfl) g g).trans ho
  rw [State.settle_cancelled hc hnot, State.eventsOf_tell howner]
  rfl

/-- A request is over once its own future has a result. It may have been cancelled before. -/
theorem settle_over (hn : s.Stands n) {busy : List Nat} (ha : Awake n s busy)
    (hbusy : ∀ f ∈ busy, f = n) (result : Bool)
    (hpending : s.status n = .pending → ∃ passes tail,
      s.eventsOf n ++ acts n n [.settled result] = tale n q.caller passes ++ tail ∧
        Ending q n (Pass.lines passes) (.finished result) tail)
    (hcancelled : s.status n = .cancelled → ∃ passes tail,
      s.eventsOf n ++ acts n n [.dropped] = tale n q.caller passes ++ tail ∧
        Ending q n (Pass.lines passes) .cancelled tail) : Over q n (s.settle n result) := by
  have hdone : (s.settle n result).status n ≠ .pending →
      ∀ f, (s.settle n result).owner f = n → (s.settle n result).status f ≠ .pending := by
    intro hself f hf hp
    by_cases hfn : f = n
    · exact hself (hfn ▸ hp)
    · rw [s.owner_settle n result f] at hf
      rw [State.status_congr (State.settle_ne (Ne.symm hfn) result)] at hp
      have hmem := ha.pending f hf hp
      rcases List.mem_cons.mp hmem with h | h
      · exact hfn h
      · exact hfn (hbusy f h)
  obtain ⟨hp | hc, hnot⟩ := ha.expected
  · have hself := State.status_settle_pending hp hn.1 result
    obtain ⟨passes, tail, he, hend⟩ := hpending hp
    refine ⟨hdone (by simp [hself]), passes, tail, ?_, by rw [hself]; exact hend⟩
    rw [eventsOf_settle_pending hp hn.2, he]
  · have hself := State.status_settle_cancelled hc result
    obtain ⟨passes, tail, he, hend⟩ := hcancelled hc
    refine ⟨hdone (by simp [hself]), passes, tail, ?_, by rw [hself]; exact hend⟩
    rw [eventsOf_settle_cancelled hc hnot hn.2, he]

theorem tale_of_verdict (n g : Nat) (caller : Caller κ) (passes : List (Pass κ)) (line : Line)
    {v : Verdict κ} (hv : v.result = true) : ∃ p : Pass κ, p.line = line ∧
      tale n caller passes ++ acts n g [.submitted line, v.act caller line, .settled true] =
        tale n caller (passes ++ [p]) := by
  obtain ⟨asked, rfl⟩ := v.evaluated_of_result hv
  refine ⟨⟨g, line, asked⟩, rfl, ?_⟩
  rw [tale_concat]
  rfl

/-- The story of a single evaluation with a result is complete. -/
theorem ending_of_single {caller : Caller κ} {only line : Line} {passes : List (Pass κ)}
    {rest : List Line} (h : [only] = Pass.lines passes ++ line :: rest) (v : Verdict κ) :
    ∃ passes' tail, tale n caller passes ++
        acts n n [.submitted line, v.act caller line, .settled v.result] =
          tale n caller passes' ++ tail ∧
      Ending (.one caller only) n (Pass.lines passes') (.finished v.result) tail := by
  have hrest : rest = [] := by
    have hlength := congrArg List.length h
    simp only [List.length_append, List.length_cons, List.length_nil] at hlength
    exact List.eq_nil_of_length_eq_zero (by omega)
  cases hv : v.result with
  | true =>
    obtain ⟨p, hp, htale⟩ := tale_of_verdict n n caller passes line hv
    refine ⟨passes ++ [p], [], by rw [htale, List.append_nil], .passed ?_⟩
    rw [Request.lines, h, hrest, Pass.lines, Pass.lines, List.map_append, ← hp]
    rfl
  | false => exact ⟨passes, _, rfl, .failed h hv⟩

end

section
variable {u : Setup κ σ} {q : Request κ} {n : Nat} {s : State κ σ}

namespace Working

variable {passed : List Line} {g : Nat} {line : Line} {rest : List Line}

theorem eq_of_single {caller : Caller κ} {only : Line}
    (hw : Working (.one caller only) n s passed g line rest) : g = n :=
  Decidable.of_not_not fun hne => Bool.false_ne_true (hw.chained.mpr hne)

/-- Once the future of a line has its result only the outer one may be pending. -/
theorem awake_settle (hw : Working q n s passed g line rest) (hg : g ≠ n) {result : Bool}
    (hp : (s.settle g result).status g ≠ .pending) : Awake n (s.settle g result) [] where
  expected := by
    have hsame := State.settle_ne (s := s) hg result
    unfold State.Open
    rw [State.status_congr hsame, State.notified_congr hsame]
    exact hw.awake.expected
  unwaited := (s.waiting_settle g result n).trans hw.awake.unwaited
  pending f hf hfp := by
    have hfg : f ≠ g := fun h => hp (h ▸ hfp)
    rw [s.owner_settle g result f] at hf
    rw [State.status_congr (State.settle_ne hfg.symm result)] at hfp
    have hmem := hw.awake.pending f hf hfp
    simpa [hfg] using hmem

/-- A cancelled line belongs to a cancelled request, for which nothing is pending. -/
theorem done_of_cancelled (hw : Working q n s passed g line rest)
    (hg : s.status g = .cancelled) : ∀ f, s.owner f = n → s.status f ≠ .pending := by
  intro f hf hp
  have hmem := hw.awake.pending f hf hp
  simp only [List.mem_cons, List.not_mem_nil, or_false] at hmem
  rcases hmem with rfl | rfl
  · rw [hw.cancelled hg] at hp
    cases hp
  · rw [hg] at hp
    cases hp

theorem of_futures (hw : Working q n s passed g line rest) (hn : s.owner n = n)
    {s' : State κ σ} (h : s'.futures = s.futures) : Working q n s' passed g line rest :=
  (Alike.of_futures h).working hn hw

theorem park (hw : Working q n s passed g line rest) (hn : s.owner n = n) {passes : Nat}
    {chain : Option (Chain κ)} (hc : chain = q.chain? n passes line rest) :
    Working q n (s.park g chain) passed g line rest := by
  cases q with
  | one caller line =>
    subst hc
    exact hw
  | all caller lines => exact (Alike.of_park (hw.chained.mp rfl) chain).working hn hw

/-- The future of a line is waited for by the chain of the line. -/
theorem waiting_park (hw : Working q n s passed g line rest) (hn : s.Stands n) {passes : Nat}
    {chain : Option (Chain κ)} (hc : chain = q.chain? n passes line rest) :
    (s.park g chain).waiting g = chain := by
  cases q with
  | one caller line =>
    subst hc
    rw [hw.eq_of_single]
    exact hw.awake.unwaited
  | all caller lines =>
    subst hc
    simp [Request.chain?, State.park, State.await, State.waiting, State.revise_self,
      List.getElem?_eq_getElem (hn.lt hw.owner)]

end Working

variable (hn : s.Stands n) (hq : s.dutiesOf n = [])
include hn hq

theorem submit_onward {t : Task κ} {chain : Option (Chain κ)}
    (hm : Moment.Sound ⟨s, [.submit t chain]⟩) (h : Holds q n s (.submit t chain)) :
    Onward q n s ((Work.submit t chain).next u s) := by
  obtain ⟨passes, rest, hw, hcaller, hchain, he⟩ := h
  have hqueued : Onward q n s
      ⟨State.park { s with tasks := s.tasks ++ [t] } t.future chain, []⟩ := by
    have hw' : Working q n { s with tasks := s.tasks ++ [t] } (Pass.lines passes) t.future t.line
        rest := hw.of_futures hn.2 rfl
    have hpush := Serves.pushTask (hn.lt hw.owner) hw.owner
    have hholds : Holds q n (State.park { s with tasks := s.tasks ++ [t] } t.future chain)
        (.perform t chain) :=
      ⟨passes, rest, hw'.park hn.2 hchain, hcaller, hchain, by rw [State.eventsOf_park]; exact he⟩
    refine .queue (hpush.trans (.park hw'.owner chain)) ?_ hholds
    have hdeliveries : State.deliveriesOf { s with tasks := s.tasks ++ [t] } n = [] :=
      (State.dutiesOf_eq_nil.mp hq).2
    rw [State.dutiesOf, State.tasksOf_park, State.deliveriesOf_park,
      State.tasksOf_push hw.owner, (State.dutiesOf_eq_nil.mp hq).1, hdeliveries]
    simp [hw'.waiting_park hn hchain]
  unfold Work.next
  cases hr : s.refusal? u with
  | some refusal =>
    have htell := Serves.tell hw.owner (.refused t.line refusal)
    refine .hold hm hq (htell.trans (.say _ _)) rfl rfl
      ⟨passes, t.line, rest, .refused refusal, hw.of_futures hn.2 rfl, rfl, hchain, ?_⟩
    have hevents := State.eventsOf_tell hw.owner (.refused t.line refusal)
    rw [he, List.append_assoc] at hevents
    exact hevents
  | none =>
    cases hworker : u.worker with
    | immediate =>
      exact .hold hm hq (.refl s) rfl rfl ⟨passes, rest, hw, hcaller, hchain, he⟩
    | queued => exact hqueued
    | owned => exact hqueued

omit hn in
theorem perform_onward {t : Task κ} {chain : Option (Chain κ)}
    (hm : Moment.Sound ⟨s, [.perform t chain]⟩) (h : Holds q n s (.perform t chain)) :
    Onward q n s ((Work.perform t chain).next u s) := by
  by_cases hc : s.status t.future = .cancelled
  · obtain ⟨passes, rest, hw, -, -, he⟩ := h
    simp only [Work.next, hc, if_true]
    refine .rest hm hq (.refl s) rfl rfl ⟨hw.done_of_cancelled hc, passes, _, he, ?_⟩
    rw [hw.cancelled hc]
    exact .skipped hw.lines
  · simp only [Work.next, hc, if_false]
    exact .hold hm hq (.refl s) rfl rfl h

theorem evaluate_onward {t : Task κ} {chain : Option (Chain κ)}
    (hm : Moment.Sound ⟨s, [.evaluate t chain]⟩) (h : Holds q n s (.evaluate t chain)) :
    Onward q n s ((Work.evaluate t chain).next u s) := by
  obtain ⟨passes, rest, hw, hcaller, hchain, he⟩ := h
  obtain ⟨outcome, asked, s', ha, hattempt⟩ := State.attempt_eq u s t
  have hn' : s'.owner n = n := (State.owner_congr (by rw [ha.futures])).trans hn.2
  have hw' := hw.of_futures hn.2 ha.futures
  have htell := Serves.tell hw'.owner (.evaluated t.caller t.line outcome asked)
  have hserves := (Serves.of_aside ha).trans htell
  have hevents : (s'.tell t.future (.evaluated t.caller t.line outcome asked)).eventsOf n =
      tale n q.caller passes ++
        acts n t.future [.submitted t.line, .evaluated q.caller t.line outcome asked] := by
    rw [State.eventsOf_tell hw'.owner, State.eventsOf_congr ha.history, he, hcaller,
      List.append_assoc]
    rfl
  cases outcome with
  | ok result =>
    simp only [Work.next, hattempt]
    exact .hold hm hq hserves ha.tasks ha.deliveries
      ⟨passes, t.line, rest, .evaluated (.ok result) asked,
        hw'.of_futures hn' rfl, rfl, hchain, hevents⟩
  | error failure =>
    simp only [Work.next, hattempt]
    exact .hold hm hq (hserves.trans (.say _ _)) ha.tasks ha.deliveries
      ⟨passes, t.line, rest, .evaluated (.error failure) asked,
        hw'.of_futures hn' rfl, rfl, hchain, hevents⟩

theorem complete_onward {g : Nat} {result : Bool} {chain : Option (Chain κ)}
    (hm : Moment.Sound ⟨s, [.complete g result chain]⟩)
    (h : Holds q n s (.complete g result chain)) :
    Onward q n s ((Work.complete g result chain).next u s) := by
  obtain ⟨passes, line, rest, v, hw, hv, hchain, he⟩ := h
  unfold Work.next
  cases u.dispatch with
  | immediate => exact .hold hm hq (.refl s) rfl rfl ⟨passes, line, rest, v, hw, hv, hchain, he⟩
  | queued =>
    have hw' : Working q n { s with deliveries := s.deliveries ++ [⟨g, result⟩] }
        (Pass.lines passes) g line rest := hw.of_futures hn.2 rfl
    have hpush : Serves n s { s with deliveries := s.deliveries ++ [⟨g, result⟩] } :=
      .pushDelivery (hn.lt hw.owner) hw.owner
    have hholds : Holds q n
        (State.park { s with deliveries := s.deliveries ++ [⟨g, result⟩] } g chain)
        (.deliver g result chain) :=
      ⟨passes, line, rest, v, hw'.park hn.2 hchain, hv, hchain,
        by rw [State.eventsOf_park]; exact he⟩
    refine .queue (hpush.trans (.park hw'.owner chain)) ?_ hholds
    have hdelivery : State.deliveriesOf { s with deliveries := s.deliveries ++ [⟨g, result⟩] } n =
        s.deliveriesOf n ++ [⟨g, result⟩] := State.deliveriesOf_push hw.owner
    have htasks : State.tasksOf { s with deliveries := s.deliveries ++ [⟨g, result⟩] } n = [] :=
      (State.dutiesOf_eq_nil.mp hq).1
    rw [State.dutiesOf, State.tasksOf_park, State.deliveriesOf_park, hdelivery,
      (State.dutiesOf_eq_nil.mp hq).2, htasks]
    simp [hw'.waiting_park hn hchain]
  | dead =>
    exact .hold hm hq (.say s _) rfl rfl
      ⟨passes, line, rest, v, hw.of_futures hn.2 rfl, hv, hchain, he⟩

theorem deliver_single_onward {caller : Caller κ} {only : Line} {g : Nat} {result : Bool}
    {chain : Option (Chain κ)} (hm : Moment.Sound ⟨s, [.deliver g result chain]⟩)
    (h : Holds (.one caller only) n s (.deliver g result chain)) :
    Onward (.one caller only) n s ((Work.deliver g result chain).next u s) := by
  obtain ⟨passes, line, rest, v, hw, rfl, hchain, he⟩ := h
  obtain rfl := hw.eq_of_single
  have hnext : (Work.deliver g v.result chain).next u s = ⟨s.settle g v.result, []⟩ := by
    simp [Work.next, hchain, Request.chain?]
  rw [hnext]
  refine .rest hm hq (.settle hn.2 _) (s.tasks_settle g _) (s.deliveries_settle g _) ?_
  refine settle_over hn hw.awake (by simp) v.result (fun _ => ?_) (fun _ => ?_)
  · rw [he, List.append_assoc]
    exact ending_of_single hw.lines v
  · refine ⟨passes, acts g g [.submitted line, v.act caller line, .dropped], ?_,
      .dropped hw.lines⟩
    rw [he, List.append_assoc]
    rfl

/-- A result for a line of a chain settles the future of the line, and the chain goes on with it
unless the line was cancelled. -/
theorem deliver_line_onward {caller : Caller κ} {lines : List Line} {g : Nat} {result : Bool}
    {chain : Option (Chain κ)} (hm : Moment.Sound ⟨s, [.deliver g result chain]⟩)
    (h : Holds (.all caller lines) n s (.deliver g result chain)) :
    Onward (.all caller lines) n s ((Work.deliver g result chain).next u s) := by
  obtain ⟨passes, line, rest, v, hw, hv, rfl, he⟩ := h
  have hgn : g ≠ n := hw.chained.mp rfl
  have hserves := Serves.settle hw.owner result
  have htasks := s.tasks_settle g result
  have hdeliveries := s.deliveries_settle g result
  obtain ⟨hp | hc, hnot⟩ := hw.expected
  · -- The chain may be cancelled meanwhile; it goes on to find out.
    simp only [Work.next, hp, if_true]
    have hself := State.status_settle_pending hp (hn.lt hw.owner) result
    refine .hold hm hq hserves htasks hdeliveries
      ⟨passes, g, line, rest, v, hw.lines, hv, ?_, rfl, ?_⟩
    · exact hw.awake_settle hgn (by simp [hself])
    · rw [eventsOf_settle_pending hp hw.owner, he, List.append_assoc]
      rfl
  · -- The cancellation of the line has told the chain already.
    simp only [Work.next, hc, reduceCtorEq, if_false]
    have hself := State.status_settle_cancelled hc result
    have hother : ∀ f, f ≠ g → (s.settle g result).status f = s.status f :=
      fun f hf => State.status_congr (State.settle_ne hf.symm result)
    refine .rest hm hq hserves htasks hdeliveries ⟨fun f hf hp => ?_, passes,
      acts n g [.submitted line, v.act caller line, .dropped], ?_, ?_⟩
    · by_cases hfg : f = g
      · rw [hfg, hself] at hp
        cases hp
      · rw [hother f hfg] at hp
        exact hw.done_of_cancelled hc f ((s.owner_settle g result f).symm.trans hf) hp
    · rw [eventsOf_settle_cancelled hc hnot hw.owner, he, List.append_assoc]
      rfl
    · rw [hother n hgn.symm, hw.cancelled hc]
      exact .dropped hw.lines

theorem resume_onward {chain : Chain κ} {result : Bool}
    (hm : Moment.Sound ⟨s, [.resume chain result]⟩)
    (h : Holds q n s (.resume chain result)) :
    Onward q n s ((Work.resume chain result).next u s) := by
  obtain ⟨passes, g, line, rest, v, hlines, hv, ha, hchain, he⟩ := h
  cases q with
  | one caller only => cases hchain
  | all caller lines =>
    cases hchain
    cases result with
    | true =>
      obtain ⟨p, hp, htale⟩ := tale_of_verdict n g caller passes line hv
      refine .hold hm hq (.refl s) rfl rfl
        ⟨passes ++ [p], ?_, ha, rfl, rfl, rfl, by simp, he.trans htale⟩
      rw [hlines, Pass.lines, Pass.lines, List.map_append, List.append_assoc, ← hp]
      rfl
    | false =>
      have hserves : Serves n s (s.say (.chainFailed line)) := .say s _
      have hn' := hn.of_serves hserves
      have hfutures : (s.say (.chainFailed line)).futures = s.futures := rfl
      have ha' := (Alike.of_futures hfutures).awake hn.2 ha
      refine .rest hm hq (hserves.trans (.settle hn'.2 false)) (State.tasks_settle _ n false)
        (State.deliveries_settle _ n false) ?_
      refine settle_over hn' ha' (by simp) false (fun _ => ?_) (fun _ => ?_)
      · refine ⟨passes, acts n g [.submitted line, v.act caller line, .settled false] ++
          acts n n [.settled false], ?_, .failed hlines hv⟩
        change s.eventsOf n ++ _ = _
        rw [he, List.append_assoc]
        rfl
      · refine ⟨passes, acts n g [.submitted line, v.act caller line, .settled false] ++
          acts n n [.dropped], ?_, .late hlines hv⟩
        change s.eventsOf n ++ _ = _
        rw [he, List.append_assoc]
        rfl

theorem put_onward {caller : Caller κ} {outer number : Nat} {line : Line} {rest : List Line}
    (hm : Moment.Sound ⟨s, [.put caller outer number line rest]⟩)
    (h : Holds q n s (.put caller outer number line rest)) :
    Onward q n s ((Work.put caller outer number line rest).next u s) := by
  obtain ⟨passes, hlines, ha, hchained, hcaller, ho, hnumber, he⟩ := h
  obtain rfl := ho.symm
  have hnew : (s.allot (some n)).2.owner s.futures.length = n := State.owner_allot_new s (some n)
  have hold : ∀ f < s.futures.length, (s.allot (some n)).2.futures[f]? = s.futures[f]? :=
    fun f hf => State.allot_old s (some n) hf
  have hserves : Serves n s (s.allot (some n)).2 := Serves.allot s (some n)
  have hpending : (s.allot (some n)).2.status s.futures.length = .pending := by
    rw [State.status, State.allot_new]
  have hnotified : (s.allot (some n)).2.notified s.futures.length = false := by
    rw [State.notified, State.allot_new]
    rfl
  refine .hold hm hq (hserves.trans (.tell hnew _)) rfl rfl
    ⟨passes, rest, ⟨hlines, ?_, hnew, ⟨?_, ?_, ?_⟩, ⟨.inl hpending, hnotified⟩, ?_⟩,
      hcaller, ?_, ?_⟩
  · exact ⟨fun _ => (Nat.ne_of_lt hn.1).symm, fun _ => hchained⟩
  · have hs := State.status_congr (hold n hn.1)
    have hnot := State.notified_congr (hold n hn.1)
    change State.Open (s.allot (some n)).2 n
    unfold State.Open
    rw [hs, hnot]
    exact ha.expected
  · exact (State.waiting_congr (hold n hn.1)).trans ha.unwaited
  · intro f hf hfp
    have hlt : f < s.futures.length + 1 := by
      simpa [State.tell, State.allot] using (hn.of_serves (hserves.trans (.tell hnew _))).lt hf
    rcases Nat.lt_succ_iff_lt_or_eq.mp hlt with hflt | rfl
    · have hmem := ha.pending f ((State.owner_congr (hold f hflt)).symm.trans hf)
        ((State.status_congr (hold f hflt)).symm.trans hfp)
      simp only [List.mem_singleton] at hmem
      simp [hmem]
    · simp
  · intro hc
    exact absurd (hpending.symm.trans hc) (by simp)
  · cases q with
    | one caller only => cases hchained
    | all caller lines => rw [hnumber, hcaller]; rfl
  · rw [State.eventsOf_tell hnew]
    change s.eventsOf n ++ _ = _
    rw [he]
    rfl

theorem lines_onward {caller : Caller κ} {outer number : Nat} {todo : List Line}
    (hm : Moment.Sound ⟨s, [.lines caller outer number todo]⟩)
    (h : Holds q n s (.lines caller outer number todo)) :
    Onward q n s ((Work.lines caller outer number todo).next u s) := by
  have hlines := h
  obtain ⟨passes, hq', ha, hchained, hcaller, rfl, hnumber, he⟩ := hlines
  unfold Work.next
  by_cases hc : s.status outer = .cancelled
  · simp only [hc, if_true]
    refine .rest hm hq (.say s _) rfl rfl ⟨fun f hf hfp => ?_, passes, [], ?_, ?_⟩
    · have hmem := ha.pending f hf hfp
      simp only [List.mem_singleton] at hmem
      rw [hmem] at hfp
      exact absurd (hfp.symm.trans hc) (by simp)
    · rw [List.append_nil]
      exact he
    · have hsame : (s.say (.chainCancelled number)).status outer = .cancelled := hc
      rw [hsame]
      exact .between hq'
  · simp only [hc, if_false]
    cases todo with
    | nil =>
      refine .rest hm hq (.settle hn.2 true) (s.tasks_settle outer true)
        (s.deliveries_settle outer true) ?_
      refine settle_over hn ha (by simp) true (fun _ => ?_) (fun hcancelled => absurd hcancelled hc)
      refine ⟨passes, q.closing outer (.settled true), ?_, .passed (by simpa using hq')⟩
      rw [he, Request.closing, if_pos hchained]
    | cons line rest => exact .hold hm hq (.refl s) rfl rfl h

/-- Every piece of work for a request leaves it over or with one duty. -/
theorem Holds.onward {w : Work κ} (hm : Moment.Sound ⟨s, [w]⟩) (h : Holds q n s w) :
    Onward q n s (w.next u s) := by
  cases w with
  | submit t chain => exact submit_onward hn hq hm h
  | perform t chain => exact perform_onward hq hm h
  | evaluate t chain => exact evaluate_onward hn hq hm h
  | complete g result chain => exact complete_onward hn hq hm h
  | deliver g result chain =>
    cases q with
    | one caller only => exact deliver_single_onward hn hq hm h
    | all caller lines => exact deliver_line_onward hn hq hm h
  | resume chain result => exact resume_onward hn hq hm h
  | lines caller outer number todo => exact lines_onward hn hq hm h
  | put caller outer number line rest => exact put_onward hn hq hm h

end

end Conditions.Evaluator
