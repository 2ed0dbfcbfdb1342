import Conditions.Proofs.Evaluator.Locality

/-!
# The story of a request

What has happened to a request is a row of lines that were evaluated to true, and what came after
them. As long as the request is not over there is one duty for it, and the duty knows how far the
request has got.
-/

set_option autoImplicit false

namespace Conditions.Evaluator
open Expression

variable {κ σ : Type}

structure Pass (κ : Type) where
  future : Nat
  line : Line
  asked : List (κ × Text)

inductive Verdict (κ : Type) where
  | refused (refusal : Refusal)
  | evaluated (outcome : Except Failure Bool) (asked : List (κ × Text))

namespace Verdict

def result : Verdict κ → Bool
  | .evaluated (.ok result) _ => result
  | _ => false

def act (caller : Caller κ) (line : Line) : Verdict κ → Act κ
  | .refused refusal => .refused line refusal
  | .evaluated outcome asked => .evaluated caller line outcome asked

theorem evaluated_of_result {v : Verdict κ} (h : v.result = true) :
    ∃ asked, v = .evaluated (.ok true) asked := by
  cases v with
  | refused refusal => simp [result] at h
  | evaluated outcome asked =>
    cases outcome with
    | error failure => simp [result] at h
    | ok result =>
      simp only [Verdict.result] at h
      exact ⟨asked, by rw [h]⟩

end Verdict

def acts (n g : Nat) (all : List (Act κ)) : List (Event κ) := all.map fun act => ⟨g, n, act⟩

def tale (n : Nat) (caller : Caller κ) (passes : List (Pass κ)) : List (Event κ) :=
  passes.flatMap fun p =>
    acts n p.future [.submitted p.line, .evaluated caller p.line (.ok true) p.asked, .settled true]

theorem tale_concat (n : Nat) (caller : Caller κ) (passes : List (Pass κ)) (p : Pass κ) :
    tale n caller (passes ++ [p]) = tale n caller passes ++
      acts n p.future
        [.submitted p.line, .evaluated caller p.line (.ok true) p.asked, .settled true] := by
  simp [tale]

namespace Request

def chained : Request κ → Bool
  | .one _ _ => false
  | .all _ _ => true

def chain? (q : Request κ) (n passed : Nat) (line : Line) (rest : List Line) :
    Option (Chain κ) :=
  match q with
  | .one _ _ => none
  | .all caller _ => some ⟨caller, line, passed + 2, rest, n⟩

def closing (q : Request κ) (n : Nat) (act : Act κ) : List (Event κ) :=
  if q.chained then acts n n [act] else []

end Request

/-- The ways in which a request ends, by the status of its future: what happened after the lines
that were evaluated to true. -/
inductive Ending (q : Request κ) (n : Nat) (passed : List Line) :
    Status → List (Event κ) → Prop where
  | passed (h : q.lines = passed) :
      Ending q n passed (.finished true) (q.closing n (.settled true))
  | failed {g : Nat} {line : Line} {rest : List Line}
      {v : Verdict κ} (h : q.lines = passed ++ line :: rest) (hv : Verdict.result v = false) :
      Ending q n passed (.finished false)
        (acts n g [.submitted line, v.act q.caller line, .settled false] ++
          q.closing n (.settled false))
  /-- A chain was cancelled before its next line. -/
  | between {rest : List Line} (h : q.lines = passed ++ rest) : Ending q n passed .cancelled []
  /-- A line was cancelled before its task. -/
  | skipped {g : Nat} {line : Line} {rest : List Line} (h : q.lines = passed ++ line :: rest) :
      Ending q n passed .cancelled (acts n g [.submitted line])
  /-- A line was cancelled before its delivery. -/
  | dropped {g : Nat} {line : Line} {rest : List Line}
      {v : Verdict κ} (h : q.lines = passed ++ line :: rest) :
      Ending q n passed .cancelled
        (acts n g [.submitted line, v.act q.caller line, .dropped])
  /-- A chain was cancelled before its last line turned out false. -/
  | late {g : Nat} {line : Line} {rest : List Line}
      {v : Verdict κ} (h : q.lines = passed ++ line :: rest) (hv : Verdict.result v = false) :
      Ending q n passed .cancelled
        (acts n g [.submitted line, v.act q.caller line, .settled false] ++ acts n n [.dropped])

namespace State

def Open (s : State κ σ) (f : Nat) : Prop :=
  (s.status f = .pending ∨ s.status f = .cancelled) ∧ s.notified f = false

end State

structure Awake (n : Nat) (s : State κ σ) (busy : List Nat) : Prop where
  expected : s.Open n
  unwaited : s.waiting n = none
  pending : ∀ f, s.owner f = n → s.status f = .pending → f ∈ n :: busy

structure Working (q : Request κ) (n : Nat) (s : State κ σ) (passed : List Line) (g : Nat)
    (line : Line) (rest : List Line) : Prop where
  lines : q.lines = passed ++ line :: rest
  chained : q.chained = true ↔ g ≠ n
  owner : s.owner g = n
  awake : Awake n s [g]
  expected : s.Open g
  cancelled : s.status g = .cancelled → s.status n = .cancelled

abbrev Pass.lines (passes : List (Pass κ)) : List Line := passes.map Pass.line

def Between (q : Request κ) (n : Nat) (s : State κ σ) (caller : Caller κ) (outer number : Nat)
    (todo : List Line) : Prop :=
  ∃ passes, q.lines = Pass.lines passes ++ todo ∧ Awake n s [] ∧ q.chained = true ∧
    caller = q.caller ∧ outer = n ∧ number = passes.length + 1 ∧
    s.eventsOf n = tale n q.caller passes

def Holds (q : Request κ) (n : Nat) (s : State κ σ) : Work κ → Prop
  | .submit t chain | .perform t chain | .evaluate t chain => ∃ passes rest,
      Working q n s (Pass.lines passes) t.future t.line rest ∧ t.caller = q.caller ∧
      chain = q.chain? n passes.length t.line rest ∧
      s.eventsOf n = tale n q.caller passes ++ acts n t.future [.submitted t.line]
  | .complete g result chain | .deliver g result chain => ∃ passes line rest v,
      Working q n s (Pass.lines passes) g line rest ∧ Verdict.result v = result ∧
      chain = q.chain? n passes.length line rest ∧
      s.eventsOf n = tale n q.caller passes ++
        acts n g [.submitted line, Verdict.act q.caller line v]
  | .resume chain result => ∃ passes g line rest v,
      q.lines = Pass.lines passes ++ line :: rest ∧ Verdict.result v = result ∧ Awake n s [] ∧
      q.chain? n passes.length line rest = some chain ∧
      s.eventsOf n = tale n q.caller passes ++
        acts n g [.submitted line, Verdict.act q.caller line v, .settled result]
  | .lines caller outer number todo => Between q n s caller outer number todo
  | .put caller outer number line rest => Between q n s caller outer number (line :: rest)

structure Over (q : Request κ) (n : Nat) (s : State κ σ) : Prop where
  done : ∀ f, s.owner f = n → s.status f ≠ .pending
  ending : ∃ passes tail, s.eventsOf n = tale n q.caller passes ++ tail ∧
    Ending q n (Pass.lines passes) (s.status n) tail

structure Lives (q : Request κ) (n : Nat) (m : Moment κ σ) : Prop where
  stands : m.state.Stands n
  course : m.dutiesOf n = [] ∧ Over q n m.state ∨ ∃ w, m.dutiesOf n = [w] ∧ Holds q n m.state w

/-- What work knows hangs on the events and on where the request stands. -/
theorem Holds.mono {q : Request κ} {n : Nat} {s s' : State κ σ} {w : Work κ}
    (h : Holds q n s w) (he : s'.eventsOf n = s.eventsOf n) (ha : Awake n s [] → Awake n s' [])
    (hw : ∀ {passed g line rest}, Working q n s passed g line rest →
      Working q n s' passed g line rest) : Holds q n s' w := by
  cases w with
  | submit t chain | perform t chain | evaluate t chain =>
    obtain ⟨passes, rest, hwork, hrest⟩ := h
    exact ⟨passes, rest, hw hwork, by rw [he]; exact hrest⟩
  | complete g result chain | deliver g result chain =>
    obtain ⟨passes, line, rest, v, hwork, hrest⟩ := h
    exact ⟨passes, line, rest, v, hw hwork, by rw [he]; exact hrest⟩
  | resume chain result =>
    obtain ⟨passes, g, line, rest, v, hlines, hv, hawake, hrest⟩ := h
    exact ⟨passes, g, line, rest, v, hlines, hv, ha hawake, by rw [he]; exact hrest⟩
  | lines caller outer number todo | put caller outer number line rest =>
    obtain ⟨passes, hlines, hawake, hrest⟩ := h
    exact ⟨passes, hlines, ha hawake, by rw [he]; exact hrest⟩

structure Alike (n : Nat) (s s' : State κ σ) : Prop where
  owner : ∀ f, s'.owner f = n ↔ s.owner f = n
  status : ∀ f, s.owner f = n → s'.status f = s.status f
  notified : ∀ f, s.owner f = n → s'.notified f = s.notified f
  waiting : s'.waiting n = s.waiting n

namespace Alike

variable {q : Request κ} {n : Nat} {s s' : State κ σ}

theorem of_futures (h : s'.futures = s.futures) : Alike n s s' where
  owner f := iff_of_eq (congrArg (· = n) (State.owner_congr (by rw [h])))
  status f _ := State.status_congr (by rw [h])
  notified f _ := State.notified_congr (by rw [h])
  waiting := State.waiting_congr (by rw [h])

theorem of_spares {m m' : Moment κ σ} (h : Spares n m m') (hn : m.state.Stands n) :
    Alike n m.state m'.state where
  owner f := by
    constructor
    · intro hf
      rw [← State.owner_congr (h.record f (.inr hf)), hf]
    · intro hf
      rw [State.owner_congr (h.record f (.inl hf)), hf]
  status f hf := State.status_congr (h.record f (.inl hf))
  notified f hf := State.notified_congr (h.record f (.inl hf))
  waiting := State.waiting_congr (h.record n (.inl hn.2))

/-- A future that begins to be waited for is no matter to a chain it is not the outer one of. -/
theorem of_park {g : Nat} (hg : g ≠ n) (chain : Option (Chain κ)) :
    Alike n s (s.park g chain) := by
  cases chain with
  | none => exact of_futures rfl
  | some chain =>
    have howner : ∀ f, (s.await g chain).owner f = s.owner f :=
      State.owner_revise (by intro _; rfl) g
    exact ⟨fun f => iff_of_eq (congrArg (· = n) (howner f)),
      fun f _ => State.status_revise (by intro _; rfl) g f,
      fun f _ => State.notified_revise (by intro _; rfl) g f,
      State.waiting_congr (State.revise_ne hg _)⟩

theorem expected (h : Alike n s s') {f : Nat} (hf : s.owner f = n) (ho : s.Open f) :
    s'.Open f := by
  unfold State.Open
  rw [h.status f hf, h.notified f hf]
  exact ho

theorem awake (h : Alike n s s') (hn : s.owner n = n) {busy : List Nat} (ha : Awake n s busy) :
    Awake n s' busy where
  expected := h.expected hn ha.expected
  unwaited := h.waiting.trans ha.unwaited
  pending f hf hp := by
    have hs := (h.owner f).mp hf
    exact ha.pending f hs ((h.status f hs).symm.trans hp)

theorem working (h : Alike n s s') (hn : s.owner n = n) {passed : List Line} {g : Nat}
    {line : Line} {rest : List Line} (hw : Working q n s passed g line rest) :
    Working q n s' passed g line rest where
  lines := hw.lines
  chained := hw.chained
  owner := (h.owner g).mpr hw.owner
  awake := h.awake hn hw.awake
  expected := h.expected hw.owner hw.expected
  cancelled := by
    rw [h.status g hw.owner, h.status n hn]
    exact hw.cancelled

theorem ended (h : Alike n s s') (hn : s.owner n = n) (he : s'.eventsOf n = s.eventsOf n)
    (ho : Over q n s) : Over q n s' where
  done f hf := by
    have hs := (h.owner f).mp hf
    rw [h.status f hs]
    exact ho.done f hs
  ending := by
    rw [he, h.status n hn]
    exact ho.ending

theorem holds (h : Alike n s s') (hn : s.owner n = n) (he : s'.eventsOf n = s.eventsOf n)
    {w : Work κ} (hw : Holds q n s w) : Holds q n s' w :=
  hw.mono he (fun ha => h.awake hn ha) fun hwork => h.working hn hwork

end Alike

theorem Spares.lives {q : Request κ} {n : Nat} {m m' : Moment κ σ} (h : Spares n m m')
    (hlen : m.state.futures.length ≤ m'.state.futures.length) (hl : Lives q n m) :
    Lives q n m' := by
  have hn := hl.stands
  have halike := Alike.of_spares h hn
  refine ⟨⟨Nat.lt_of_lt_of_le hn.1 hlen, (halike.owner n).mpr hn.2⟩, ?_⟩
  rcases hl.course with ⟨hd, ho⟩ | ⟨w, hd, hw⟩
  · exact .inl ⟨List.perm_nil.mp (hd ▸ h.duties), halike.ended hn.2 h.events ho⟩
  · exact .inr ⟨w, List.perm_singleton.mp (hd ▸ h.duties), halike.holds hn.2 h.events hw⟩

theorem Holds.owner {q : Request κ} {n : Nat} {s : State κ σ} {w : Work κ} (h : Holds q n s w) :
    w.owner s = n := by
  cases w with
  | submit t chain | perform t chain | evaluate t chain =>
    obtain ⟨_, _, hwork, _⟩ := h
    exact hwork.owner
  | complete g result chain | deliver g result chain =>
    obtain ⟨_, _, _, _, hwork, _⟩ := h
    exact hwork.owner
  | resume chain result =>
    obtain ⟨_, _, _, _, _, _, _, _, hc, _⟩ := h
    cases q with
    | one caller line => simp [Request.chain?] at hc
    | all caller lines =>
      simp only [Request.chain?, Option.some.injEq] at hc
      exact hc ▸ rfl
  | lines caller outer number todo | put caller outer number line rest =>
    obtain ⟨_, _, _, _, _, ho, _⟩ := h
    exact ho

/-- A request that is worked on is not over, and one line of it is pending at most. -/
theorem Holds.awake {q : Request κ} {n : Nat} {s : State κ σ} {w : Work κ} (h : Holds q n s w) :
    ∃ g, Awake n s [g] := by
  have hany : Awake n s [] → ∃ g, Awake n s [g] := fun ha =>
    ⟨n, ha.expected, ha.unwaited, fun f hf hp => by simpa using ha.pending f hf hp⟩
  cases w with
  | submit t chain | perform t chain | evaluate t chain =>
    obtain ⟨_, _, hwork, _⟩ := h
    exact ⟨_, hwork.awake⟩
  | complete g result chain | deliver g result chain =>
    obtain ⟨_, _, _, _, hwork, _⟩ := h
    exact ⟨_, hwork.awake⟩
  | resume chain result =>
    obtain ⟨_, _, _, _, _, _, _, hawake, _⟩ := h
    exact hany hawake
  | lines caller outer number todo | put caller outer number line rest =>
    obtain ⟨_, _, hawake, _⟩ := h
    exact hany hawake

end Conditions.Evaluator
