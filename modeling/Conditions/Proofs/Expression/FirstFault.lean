import Conditions.Proofs.Expression.Decomposition
import Conditions.Proofs.Expression.Recognition

/-!
# Where a fault is seen

A row of tokens is viable as long as it can still become the row of a condition, and these rows are
exactly those that a parser shifts. So a fault is told at the first token that makes the row of a
source impossible. One token of lookahead lets a quote that is not closed win over a lone `=` right
in front of it.
-/

set_option autoImplicit false

namespace Conditions.Expression
open Text (isBlank)

/-- The rows of conditions, their ends included: sentences with groups nested at most fifty deep,
whose operators are symbols of comparators. -/
def Accepted (ts : List Token) : Prop :=
  ∃ front e, ts = front ++ [e] ∧ e.kind = .eof ∧ Sentence .expression 50 front ∧
    ∀ t ∈ front, t.kind = .operator → ∃ c : Comparator, c.symbol = t.text

def Viable (ts : List Token) : Prop := ∃ us, Accepted (ts ++ us)

structure Impossible (front : List Token) (t : Token) : Prop where
  before : Viable front
  here : ¬ Viable (front ++ [t])

theorem Viable.of_append {ts us : List Token} (h : Viable (ts ++ us)) : Viable ts := by
  obtain ⟨vs, hvs⟩ := h
  exact ⟨us ++ vs, by rwa [← List.append_assoc]⟩

theorem Accepted.derives {ts : List Token} (h : Accepted ts) : ∃ front e c,
    ts = front ++ [e] ∧ e.kind = .eof ∧ Derives .expression maxDepth front c := by
  obtain ⟨front, e, rfl, he, hsentence, hoperators⟩ := h
  have hsymbols : ∀ t ∈ front, t.kind = .operator →
      (Comparator.ofSymbol? t.text).isSome = true := by
    intro t ht hk
    obtain ⟨comparator, hsymbol⟩ := hoperators t ht hk
    rw [Comparator.ofSymbol?_of_eq hsymbol]
    rfl
  obtain ⟨c, hc⟩ := hsentence.derives hsymbols
  exact ⟨front, e, c, rfl, he, hc⟩

theorem Derives.operators {rule : Rule} {depth : Nat} {ts : List Token} {c : Condition}
    (h : Derives rule depth ts c) :
    ∀ t ∈ ts, t.kind = .operator → ∃ comparator : Comparator, comparator.symbol = t.text := by
  induction h with
  | disjunct _ ih => exact ih
  | conjunct _ ih => exact ih
  | or _ kind _ ihl ihr | and _ kind _ ihl ihr =>
    intro t ht hk
    rcases List.mem_append.mp ht with ht | ht
    · exact ihl t ht hk
    rcases List.mem_cons.mp ht with rfl | ht
    · rw [kind] at hk
      cases hk
    · exact ihr t ht hk
  | group front _ back ih =>
    intro t ht hk
    simp only [List.mem_cons, List.mem_append, List.not_mem_nil, or_false] at ht
    rcases ht with rfl | ht | rfl
    · rw [front] at hk
      cases hk
    · exact ih t ht hk
    · rw [back] at hk
      cases hk
  | @comparison _ left operator right comparator front _ symbol back =>
    intro t ht hk
    simp only [List.mem_cons, List.not_mem_nil, or_false] at ht
    rcases ht with rfl | rfl | rfl
    · rw [front] at hk
      cases hk
    · exact ⟨comparator, symbol⟩
    · rw [back] at hk
      cases hk

theorem Derives.accepted {ts : List Token} {c : Condition} {e : Token}
    (h : Derives .expression maxDepth ts c) (he : e.kind = .eof) : Accepted (ts ++ [e]) :=
  ⟨ts, e, rfl, he, h.sentence.1, h.operators⟩

def closing (depth : Nat) : List Token := List.replicate depth ⟨.rightParen, [')'], 0⟩

theorem feed_closing (depth : Nat) (frame : Frame) (outer : List Frame) (c : Condition) :
    ∃ frame' c', State.feed depth ⟨frame, outer, .connective c⟩ (closing outer.length) =
      some ⟨frame', [], .connective c'⟩ := by
  induction outer generalizing frame c with
  | nil => exact ⟨frame, c, rfl⟩
  | cons around outer ih =>
    obtain ⟨frame', c', hf⟩ := ih around (frame.close c)
    exact ⟨frame', c', hf⟩

/-- From every state a comparison can be finished, and so can the groups around it. -/
theorem State.completes (depth : Nat) (s : State) :
    ∃ ts frame c, s.feed depth ts = some ⟨frame, [], .connective c⟩ := by
  obtain ⟨frame, outer, wanted⟩ := s
  have hprimary : ∃ ts c, State.feed depth ⟨frame, outer, wanted⟩ ts =
      some ⟨frame, outer, .connective c⟩ := by
    let operand : Token := ⟨.literal, ['x'], 0⟩
    let operator : Token := ⟨.operator, ['=', '='], 0⟩
    cases wanted with
    | primary => exact ⟨[operand, operator, operand], _, rfl⟩
    | operator left => exact ⟨[operator, operand], _, rfl⟩
    | rightOperand left comparator => exact ⟨[operand], _, rfl⟩
    | connective c => exact ⟨[], c, rfl⟩
  obtain ⟨ts, c, hts⟩ := hprimary
  obtain ⟨frame', c', hclosing⟩ := feed_closing depth frame outer c
  exact ⟨ts ++ closing outer.length, frame', c', by rw [State.feed_append hts, hclosing]⟩

theorem derives_of_feed {ts : List Token} {frame : Frame} {c : Condition}
    (h : State.initial.feed 0 ts = some ⟨frame, [], .connective c⟩) :
    Derives .expression maxDepth ts (frame.close c) := by
  have hreads := (State.reads_initial maxDepth).feed (Nat.zero_add _) h
  have hend : State.decision ⟨frame, [], .connective c⟩ (0 + 0) ⟨.eof, [], 0⟩ =
      .accept (frame.close c) := rfl
  exact hreads.accept hend

theorem viable_of_feed {ts : List Token} {s : State} (h : State.initial.feed 0 ts = some s) :
    Viable ts := by
  obtain ⟨us, frame, c, hus⟩ := s.completes 0
  have hall : State.initial.feed 0 (ts ++ us) = some ⟨frame, [], .connective c⟩ := by
    rw [State.feed_append h, hus]
  refine ⟨us ++ [⟨.eof, [], 0⟩], ?_⟩
  rw [← List.append_assoc]
  exact (derives_of_feed hall).accepted rfl

theorem State.feed_of_append {depth : Nat} {s s' : State} {ts us : List Token}
    (h : s.feed depth (ts ++ us) = some s') :
    ∃ s'', s.feed depth ts = some s'' ∧ s''.feed depth us = some s' := by
  induction ts generalizing s with
  | nil => exact ⟨s, rfl, h⟩
  | cons t ts ih =>
    simp only [List.cons_append, feed] at h ⊢
    split at h
    · exact ih h
    · cases h

def State.Takes (s : State) (t : Token) : Prop :=
  (∃ s', s.decision s.outer.length t = .shift s') ∨
    t.kind = .eof ∧ ∃ c, s.decision s.outer.length t = .accept c

theorem takes_of_viable {front : List Token} {t : Token} {s : State}
    (hs : State.initial.feed 0 front = some s) (h : Viable (front ++ [t])) : s.Takes t := by
  obtain ⟨us, haccepted⟩ := h
  obtain ⟨ws, e, c, hsplit, he, hderives⟩ := haccepted.derives
  obtain ⟨frame, read, hclose, hf⟩ := hderives.shifts 0 [] (by simp)
  rw [List.append_assoc, List.singleton_append] at hsplit
  rcases List.eq_nil_or_concat us with rfl | ⟨vs, e', rfl⟩
  · -- `t` is the end of the whole row
    obtain ⟨rfl, hend⟩ := List.append_inj' hsplit rfl
    cases hend
    rw [State.initial, hf, Option.some.injEq] at hs
    subst hs
    refine .inr ⟨he, frame.close read, ?_⟩
    simp only [State.decision, he]
  · have hws : front ++ t :: vs = ws := by
      have hconcat : (front ++ t :: vs) ++ [e'] = ws ++ [e] := by simpa using hsplit
      exact (List.append_inj' hconcat rfl).1
    subst hws
    obtain ⟨s', hs', hrest⟩ := State.feed_of_append hf
    rw [← State.initial, hs, Option.some.injEq] at hs'
    subst hs'
    simp only [State.feed, Nat.zero_add] at hrest
    split at hrest
    · exact .inl ⟨_, ‹_›⟩
    · cases hrest

theorem impossible_of_feed {front : List Token} {t : Token} {s : State}
    (hs : State.initial.feed 0 front = some s) (h : ¬ s.Takes t) : Impossible front t :=
  ⟨viable_of_feed hs, fun hviable => h (takes_of_viable hs hviable)⟩

/-- There is only one place at which a row becomes impossible. -/
theorem Impossible.unique {front front' back back' : List Token} {t t' : Token}
    (h : Impossible front t) (h' : Impossible front' t')
    (heq : front ++ t :: back = front' ++ t' :: back') :
    front = front' ∧ t = t' ∧ back = back' := by
  have hshort : ∀ {front front' back back' : List Token} {t t' : Token}, Impossible front t →
      Impossible front' t' → front ++ t :: back = front' ++ t' :: back' →
      front'.length ≤ front.length := by
    intro front front' back back' t t' h h' heq
    refine Nat.le_of_not_lt fun hlt => h.here ?_
    have hfront : front ++ [t] <+: front' ++ t' :: back' := by
      rw [← heq]
      exact ⟨back, by simp⟩
    obtain ⟨rest, hrest⟩ :=
      List.prefix_of_prefix_length_le hfront (List.prefix_append front' _)
        (by simpa using Nat.succ_le_of_lt hlt)
    exact Viable.of_append (hrest ▸ h'.before)
  have hlength := Nat.le_antisymm (hshort h' h heq.symm) (hshort h h' heq)
  obtain ⟨hfront, hrest⟩ := List.append_inj heq hlength
  cases hrest
  exact ⟨hfront, rfl, rfl⟩

def Scanned (source : Text) (ts : List Token) : Option Fault → Prop
  | none => Decomposes source ts
  | some fault => ∃ i n mark, Covers source 0 ts i ∧ LeftOpen .outside (source.drop i) n mark ∧
      fault = ⟨.unterminated mark, source, i + n, source.drop i⟩

inductive Cursor.Walks : Cursor → List Token → Option Fault → Prop where
  | last {c : Cursor} (finished : c.atEnd = true) : Walks c [c.current] none
  | stuck {c : Cursor} {fault : Fault} (going : c.atEnd = false) (next : c.next = .error fault) :
      Walks c [c.current] (some fault)
  | cons {c c' : Cursor} {ts : List Token} {stop : Option Fault} (going : c.atEnd = false)
      (next : c.next = .ok c') (rest : Walks c' ts stop) : Walks c (c.current :: ts) stop

section
variable {source : Text} {i j : Nat} {ts : List Token} {stop : Option Fault}

def Begins (source : Text) (i : Nat) (ts : List Token) (stop : Option Fault) : Prop :=
  (∃ c, Cursor.scanAt source i (source.drop i) = .ok c ∧ c.source = source ∧ c.Walks ts stop) ∨
    ∃ fault, Cursor.scanAt source i (source.drop i) = .error fault ∧ ts = [] ∧ stop = some fault

theorem begins_end (source : Text) :
    Begins source source.length [⟨.eof, [], source.length⟩] none := by
  refine .inl ⟨⟨source, ⟨.eof, [], source.length⟩, []⟩, ?_, rfl, .last rfl⟩
  rw [List.drop_length]
  rfl

theorem Begins.token {t : Token} (h : Begins source t.stop ts stop) (hfits : Fits source t) :
    Begins source t.position (t :: ts) stop := by
  have hkind : t.kind ≠ .eof := by
    rcases hfits.kind with ⟨hmem, -⟩ | ⟨hliteral, -⟩
    · exact symbol_ne_eof _ hmem
    · rw [hliteral]
      decide
  have hgoing : (Cursor.mk source t (source.drop t.stop)).atEnd = false := by
    simp [Cursor.atEnd, hkind]
  have hnext : (Cursor.mk source t (source.drop t.stop)).next =
      Cursor.scanAt source t.stop (source.drop t.stop) := by simp [Cursor.next, hgoing]
  refine .inl ⟨⟨source, t, source.drop t.stop⟩, ?_, rfl, ?_⟩
  · rw [Cursor.scanAt, hfits.scan]
  · rcases h with ⟨c, hscan, -, hwalks⟩ | ⟨fault, hscan, rfl, rfl⟩
    · exact .cons hgoing (hnext.trans hscan) hwalks
    · exact .stuck hgoing (hnext.trans hscan)

theorem Begins.gap (h : Begins source j ts stop) (hgap : Gap source i j) :
    Begins source i ts stop := by
  rwa [Begins, scanAt_gap hgap]

theorem Covers.begins {us : List Token} (h : Covers source i us j) (hrest : Begins source j ts stop) :
    Begins source i (us ++ ts) stop := by
  induction h with
  | nil gap => exact hrest.gap gap
  | cons gap fits _ ih => exact ((ih hrest).token fits).gap gap

theorem Scanned.begins (h : Scanned source ts stop) : Begins source 0 ts stop := by
  cases stop with
  | none =>
    obtain ⟨front, rfl, hcovers⟩ := h
    exact hcovers.begins (begins_end source)
  | some fault =>
    obtain ⟨i, n, mark, hcovers, hopen, rfl⟩ := h
    have hstuck : Begins source i [] (some ⟨.unterminated mark, source, i + n, source.drop i⟩) :=
      .inr ⟨_, scanAt_leftOpen hopen, rfl, rfl⟩
    simpa using hcovers.begins hstuck

/-- What is scanned of a source are its tokens, or the fault that it is told. -/
theorem Scanned.tokens (h : Scanned source ts stop) :
    Expression.tokens source = stop.elim (.ok ts) .error := by
  cases stop with
  | none =>
    obtain ⟨front, rfl, hcovers⟩ := h
    exact tokens_of_covers hcovers
  | some fault =>
    obtain ⟨i, n, mark, hcovers, hopen, rfl⟩ := h
    exact tokens_of_stuck ⟨ts, i, n, mark, hcovers, hopen, rfl⟩

theorem scanned_total (source : Text) : ∃ ts stop, Scanned source ts stop := by
  obtain ⟨ts, j, hcovers, rfl | ⟨n, mark, hopen⟩⟩ := covers_total (Nat.zero_le source.length)
  · exact ⟨_, none, ts, rfl, hcovers⟩
  · exact ⟨ts, some _, j, n, mark, hcovers, hopen, rfl⟩

theorem Covers.fits (h : Covers source i ts j) : ∀ t ∈ ts, Fits source t := by
  induction h with
  | nil => simp
  | cons _ fits _ ih => exact fun t ht => (List.mem_cons.mp ht).elim (· ▸ fits) (ih t)

/-- A scanned token is the end of its source or a slice of it. -/
theorem Scanned.fits (h : Scanned source ts stop) :
    ∀ t ∈ ts, t = ⟨.eof, [], source.length⟩ ∨ Fits source t := by
  cases stop with
  | none =>
    obtain ⟨front, rfl, hcovers⟩ := h
    intro t ht
    rcases List.mem_append.mp ht with ht | ht
    · exact .inr (hcovers.fits t ht)
    · exact .inl (List.mem_singleton.mp ht)
  | some fault =>
    obtain ⟨i, n, mark, hcovers, -, -⟩ := h
    exact fun t ht => .inr (hcovers.fits t ht)

theorem Scanned.position_le (h : Scanned source ts stop) :
    ∀ t ∈ ts, t.position ≤ source.length := by
  intro t ht
  rcases h.fits t ht with rfl | hfits
  · exact Nat.le_refl _
  · have := hfits.stop_le
    omega

/-- The fault at which scanning stops is lexical, and lies inside the source. -/
theorem Scanned.fault {fault : Fault} (h : Scanned source ts (some fault)) :
    fault.isLexical = true ∧ fault.position ≤ source.length := by
  obtain ⟨i, n, mark, -, hopen, rfl⟩ := h
  obtain ⟨hlt, -⟩ := List.getElem?_eq_some_iff.mp hopen.opens
  rw [List.length_drop] at hlt
  refine ⟨rfl, ?_⟩
  change i + n ≤ source.length
  omega

/-- Among the operators of a source only a lone `=` belongs to no comparator. -/
theorem Scanned.lone {t : Token} (h : Scanned source ts stop) (ht : t ∈ ts)
    (hk : t.kind = .operator) (hsymbol : Comparator.ofSymbol? t.text = none) : t.text = ['='] := by
  refine Decidable.byContradiction fun hne => ?_
  have hmem : (t.kind, t.text) ∈ symbols := by
    rcases h.fits t ht with rfl | hfits
    · cases hk
    · rcases hfits.kind with ⟨hmem, -⟩ | ⟨hliteral, -⟩
      · exact hmem
      · rw [hliteral] at hk
        cases hk
  have hsome := comparator_of_symbols _ hmem hk hne
  rw [hsymbol] at hsome
  cases hsome

end

/-- What a parser answers in state `s` in front of token `t`, which it does not shift. The tokens
`back` follow it, up to where scanning stops. -/
def State.Answers (s : State) (source : Text) (t : Token) (back : List Token)
    (stop : Option Fault) (e : Ending) : Prop :=
  match s.decision s.outer.length t with
  | .shift _ => False
  | .accept c => e.answer = .ok c ∧ e.cursor.current = t
  | .refuse cause => e.answer = .error (t.fault source cause)
  | .reject cause => e.answer = .error (match back, stop with
    | [], some fault => fault
    | _, _ => t.fault source cause)

inductive Ends (s : State) (source : Text) (ts : List Token) (stop : Option Fault) (e : Ending) :
    Prop where
  | stuck {s' : State} {fault : Fault} (fed : s.feed 0 ts = some s') (stops : stop = some fault)
      (answer : e.answer = .error fault)
  | ended {front back : List Token} {t : Token} {s' : State} (split : ts = front ++ t :: back)
      (fed : s.feed 0 front = some s') (answers : s'.Answers source t back stop e)

theorem Ends.first {s : State} {source : Text} {t : Token} {back : List Token}
    {stop : Option Fault} {e : Ending} (h : s.Answers source t back stop e) :
    Ends s source (t :: back) stop e :=
  .ended (List.nil_append _).symm rfl h

theorem Cursor.source_of_scanAt {source t : Text} {i : Nat} {c : Cursor}
    (h : scanAt source i t = .ok c) : c.source = source := by
  unfold scanAt at h
  split at h <;> cases h
  rfl

theorem Cursor.next_source {c c' : Cursor} (h : c.next = .ok c') : c'.source = c.source := by
  unfold next at h
  split at h
  · cases h
    rfl
  · exact source_of_scanAt h

theorem Cursor.Walks.ne_nil {c : Cursor} {ts : List Token} {stop : Option Fault}
    (h : c.Walks ts stop) : ts ≠ [] := by
  cases h <;> simp

theorem Cursor.Walks.answers {c : Cursor} {back : List Token} {stop : Option Fault} {s : State}
    (h : c.Walks (c.current :: back) stop)
    (hd : ∀ s', s.decision s.outer.length c.current ≠ .shift s') :
    s.Answers c.source c.current back stop (run 0 c s) := by
  unfold State.Answers
  cases hdecision : s.decision s.outer.length c.current with
  | shift s' => exact hd s' hdecision
  | accept condition =>
    rw [run_accept (by rwa [Nat.zero_add])]
    exact ⟨rfl, rfl⟩
  | refuse cause => rw [run_refuse (by rwa [Nat.zero_add])]
  | reject cause =>
    rw [← Nat.zero_add s.outer.length] at hdecision
    cases h with
    | last finished =>
      have hnext : c.next = .ok c := by simp [next, finished]
      simp only [run_reject hdecision, hnext]
    | stuck going next => simp only [run_reject hdecision, next]
    | cons going next rest =>
      cases back with
      | nil => exact absurd rfl rest.ne_nil
      | cons t back => simp only [run_reject hdecision, next]

theorem Cursor.Walks.ends {c : Cursor} {ts : List Token} {stop : Option Fault}
    (h : c.Walks ts stop) (s : State) : Ends s c.source ts stop (run 0 c s) := by
  induction h generalizing s with
  | @last c finished =>
    have hend : c.current.kind = .eof := by simpa [Cursor.atEnd] using finished
    exact .first ((Walks.last finished).answers fun _ => s.decision_eof hend)
  | @stuck c fault going next =>
    cases hd : s.decision s.outer.length c.current with
    | shift s' =>
      rw [← Nat.zero_add s.outer.length] at hd
      have hfed : s.feed 0 [c.current] = some s' := by simp only [State.feed, hd]
      exact .stuck hfed rfl (by rw [run_shift_stuck hd next])
    | _ => exact .first ((Walks.stuck going next).answers (by simp [hd]))
  | @cons c c' ts stop going next rest ih =>
    cases hd : s.decision s.outer.length c.current with
    | shift s' =>
      rw [← Nat.zero_add s.outer.length] at hd
      have hfeed : ∀ us, s.feed 0 (c.current :: us) = s'.feed 0 us := by
        intro us
        simp only [State.feed, hd]
      have hrest := ih s'
      rw [next_source next, ← run_shift hd next] at hrest
      cases hrest with
      | stuck fed stops answer => exact .stuck ((hfeed ts).trans fed) stops answer
      | @ended front back t s'' split fed answers =>
        subst split
        exact .ended List.cons_append.symm ((hfeed front).trans fed) answers
    | _ => exact .first ((Walks.cons going next rest).answers (by simp [hd]))

theorem State.lexical_of_refuse {s : State} {depth : Nat} {t : Token} {cause : Cause}
    (h : s.decision depth t = .refuse cause) : cause.isLexical = false := by
  unfold decision at h
  split at h <;> repeat' split at h
  all_goals cases h
  all_goals rfl

/-- Rejected is only what stands for the operator of a comparison and belongs to no comparator. -/
theorem State.reject_iff {s : State} {depth : Nat} {t : Token} {cause : Cause} :
    s.decision depth t = .reject cause ↔ (∃ left, s.wanted = .operator left) ∧
      t.kind = .operator ∧ Comparator.ofSymbol? t.text = none ∧ cause = .unknownOperator t.text := by
  obtain ⟨frame, outer, wanted⟩ := s
  unfold decision
  cases wanted with
  | operator left => cases t.kind <;> cases Comparator.ofSymbol? t.text <;> simp [eq_comm]
  | primary =>
    cases t.kind with
    | leftParen => by_cases h : depth < maxDepth <;> simp [h]
    | _ => simp
  | rightOperand left comparator => cases t.kind <;> simp
  | connective c => cases t.kind <;> cases outer <;> simp

/-- A lone `=` ends the scanned row where the symbol of a comparator might stand, and scanning stops
behind it. -/
structure Outrun (front : List Token) (t : Token) (back : List Token) (stop : Option Fault) :
    Prop where
  kind : t.kind = .operator
  lone : t.text = ['=']
  allowed : ∃ c : Comparator, Viable (front ++ [⟨.operator, c.symbol, t.position⟩])
  last : back = []
  stops : stop.isSome = true

/-- The symbol of a comparator may stand exactly where a parser waits for an operator. -/
theorem operator_viable_iff {front : List Token} {s : State} {position : Nat}
    (hs : State.initial.feed 0 front = some s) :
    (∃ c : Comparator, Viable (front ++ [⟨.operator, c.symbol, position⟩])) ↔
      ∃ left, s.wanted = .operator left := by
  constructor
  · rintro ⟨c, hviable⟩
    rcases takes_of_viable hs hviable with ⟨s', hshift⟩ | ⟨hend, -⟩
    · obtain ⟨frame, outer, wanted⟩ := s
      unfold State.decision at hshift
      cases wanted with
      | operator left => exact ⟨left, rfl⟩
      | connective read => cases outer <;> simp at hshift
      | _ => simp at hshift
    · cases hend
  · rintro ⟨left, hwanted⟩
    refine ⟨.equal, viable_of_feed (s := { s with wanted := .rightOperand left .equal }) ?_⟩
    rw [State.feed_append hs]
    simp [State.feed, State.decision, hwanted, Comparator.ofSymbol?_symbol]

theorem Outrun.rejects {front back : List Token} {t : Token} {stop : Option Fault} {s : State}
    (h : Outrun front t back stop) (hs : State.initial.feed 0 front = some s) :
    s.decision s.outer.length t = .reject (.unknownOperator t.text) := by
  refine State.reject_iff.mpr ⟨(operator_viable_iff hs).mp h.allowed, h.kind, ?_, rfl⟩
  rw [h.lone]
  decide

/-- What a source is at fault for: where scanning stops if nothing before is impossible, and its
first impossible token otherwise, unless that is outrun. -/
inductive Blamed (source : Text) (ts : List Token) (stop : Option Fault) (fault : Fault) : Prop where
  | scanning (viable : Viable ts) (stops : stop = some fault)
  | outrun {front : List Token} {t : Token} (split : ts = front ++ [t])
      (impossible : Impossible front t) (outrun : Outrun front t [] stop) (stops : stop = some fault)
  | token {front back : List Token} {t : Token} {cause : Cause} (split : ts = front ++ t :: back)
      (impossible : Impossible front t) (leading : ¬ Outrun front t back stop)
      (lexical : cause.isLexical = false) (told : fault = t.fault source cause)

/-- A fault of the token at which a run has ended without an answer. -/
theorem State.Answers.blamed {source : Text} {ts front back : List Token} {t : Token}
    {stop : Option Fault} {s : State} {e : Ending} {fault : Fault} (hscanned : Scanned source ts stop)
    (hsplit : ts = front ++ t :: back) (hs : State.initial.feed 0 front = some s)
    (h : s.Answers source t back stop e) (he : e.answer = .error fault) :
    Blamed source ts stop fault := by
  unfold State.Answers at h
  cases hd : s.decision s.outer.length t with
  | shift s' => simp only [hd] at h
  | accept c =>
    simp only [hd] at h
    rw [h.1] at he
    cases he
  | refuse cause =>
    simp only [hd] at h
    rw [h, Except.error.injEq] at he
    refine .token hsplit (impossible_of_feed hs ?_) ?_ (State.lexical_of_refuse hd) he.symm
    · simp [State.Takes, hd]
    · intro houtrun
      rw [houtrun.rejects hs] at hd
      cases hd
  | reject cause =>
    simp only [hd] at h
    rw [h, Except.error.injEq] at he
    obtain ⟨hwanted, hkind, hsymbol, rfl⟩ := State.reject_iff.mp hd
    have himpossible : Impossible front t := impossible_of_feed hs (by simp [State.Takes, hd])
    have hlone := hscanned.lone (hsplit ▸ by simp) hkind hsymbol
    split at he
    · subst he
      refine .outrun hsplit himpossible ⟨hkind, hlone, ?_, rfl, rfl⟩ rfl
      exact (operator_viable_iff hs).mpr hwanted
    · rename_i hlast
      refine .token hsplit himpossible (fun houtrun => ?_) rfl he.symm
      obtain ⟨f, hf⟩ := Option.isSome_iff_exists.mp houtrun.stops
      exact hlast f houtrun.last hf

theorem State.Answers.accepts {source : Text} {t : Token} {back : List Token} {stop : Option Fault}
    {s : State} {e : Ending} {c : Condition} (h : s.Answers source t back stop e)
    (he : e.answer = .ok c) :
    s.decision s.outer.length t = .accept c ∧ e.cursor.current = t := by
  unfold State.Answers at h
  cases hd : s.decision s.outer.length t with
  | accept c' =>
    simp only [hd, he, Except.ok.injEq] at h
    exact ⟨by rw [h.1], h.2⟩
  | shift s' => simp only [hd] at h
  | refuse cause | reject cause =>
    simp only [hd, he] at h
    cases h

theorem blamed_of_parse {source : Text} {ts : List Token} {stop : Option Fault} {fault : Fault}
    (hsource : source.all isBlank = false) (hscanned : Scanned source ts stop)
    (h : parse source = .error fault) : Blamed source ts stop fault := by
  unfold parse at h
  simp only [hsource, Bool.false_eq_true, if_false] at h
  rcases hscanned.begins with ⟨c, hscan, rfl, hwalks⟩ | ⟨f, hscan, rfl, rfl⟩
  · have hstart : Cursor.start c.source = .ok c := hscan
    simp only [hstart, Parser.condition, Parser.ofCursor, bind, Except.bind] at h
    cases hwalks.ends .initial with
    | stuck fed stops answer =>
      simp only [answer, Except.error.injEq] at h
      exact .scanning (viable_of_feed fed) (h ▸ stops)
    | @ended front back t s split fed answers =>
      cases hanswer : (run 0 c .initial).answer with
      | error f =>
        simp only [hanswer, Except.error.injEq] at h
        exact answers.blamed hscanned split fed (h ▸ hanswer)
      | ok condition =>
        obtain ⟨hd, hcurrent⟩ := answers.accepts hanswer
        simp only [hanswer, hcurrent, pure, Except.pure] at h
        split at h
        · cases h
        · rename_i hkind
          -- what stands behind a finished condition is neither shifted nor the end
          refine .token split (impossible_of_feed fed (by simp [State.Takes, hd, hkind])) ?_ rfl
            (Except.error.inj h).symm
          intro houtrun
          rw [houtrun.rejects fed] at hd
          cases hd
  · have hstart : Cursor.start source = .error f := hscan
    simp only [hstart, bind, Except.bind, Except.error.injEq] at h
    exact .scanning (viable_of_feed (s := .initial) rfl) (h ▸ rfl)

/-- A source that holds something and is no condition has the position and the text of its first
impossible token told, in a fault that is not lexical. Only if there is none, or if it is outrun,
is the fault the one at which scanning stops. -/
theorem fault_at_first_impossible (source : Text) (hsource : ∃ c ∈ source, isBlank c = false)
    (fault : Fault) (h : parse source = .error fault) :
    (∃ ts stop, Scanned source ts stop) ∧
    (∀ ts stop, Scanned source ts stop →
      (∀ front t back, ts = front ++ t :: back → Impossible front t →
        (¬ Outrun front t back stop →
          fault.isLexical = false ∧ fault.position = t.position ∧ fault.token = t.text) ∧
        (Outrun front t back stop → fault.isLexical = true ∧ stop = some fault)) ∧
      ((∀ front t back, ts = front ++ t :: back → ¬ Impossible front t) →
        fault.isLexical = true ∧ stop = some fault)) ∧
    fault.position ≤ source.length := by
  have hblank : source.all isBlank = false := by
    obtain ⟨c, hc, hblank⟩ := hsource
    exact List.all_eq_false.mpr ⟨c, hc, by simp [hblank]⟩
  refine ⟨scanned_total source, fun ts stop hscanned => ⟨fun front t back hsplit himpossible => ?_,
    fun hnone => ?_⟩, ?_⟩
  · cases blamed_of_parse hblank hscanned h with
    | scanning viable stops =>
      rw [hsplit, ← List.singleton_append, ← List.append_assoc] at viable
      exact absurd viable.of_append himpossible.here
    | outrun split impossible outrun stops =>
      obtain ⟨rfl, rfl, rfl⟩ := himpossible.unique impossible (hsplit.symm.trans split)
      exact ⟨fun hleading => absurd outrun hleading, fun _ => ⟨(stops ▸ hscanned).fault.1, stops⟩⟩
    | token split impossible leading lexical told =>
      obtain ⟨rfl, rfl, rfl⟩ := himpossible.unique impossible (hsplit.symm.trans split)
      exact ⟨fun _ => told ▸ ⟨lexical, rfl, rfl⟩, fun houtrun => absurd houtrun leading⟩
  · cases blamed_of_parse hblank hscanned h with
    | scanning viable stops => exact ⟨(stops ▸ hscanned).fault.1, stops⟩
    | outrun split impossible => exact absurd impossible (hnone _ _ _ split)
    | token split impossible => exact absurd impossible (hnone _ _ _ split)
  · obtain ⟨ts, stop, hscanned⟩ := scanned_total source
    cases blamed_of_parse hblank hscanned h with
    | scanning viable stops => exact (stops ▸ hscanned).fault.2
    | outrun split impossible outrun stops => exact (stops ▸ hscanned).fault.2
    | @token front back t cause split impossible leading lexical told =>
      rw [told]
      exact hscanned.position_le t (split ▸ by simp)

/-- In `a = 'b` the open quote is told and not the lone `=`, although that is impossible already. -/
theorem fault_behind_lone_equals :
    parse ['a', ' ', '=', ' ', '\'', 'b'] =
      .error ⟨.unterminated '\'', ['a', ' ', '=', ' ', '\'', 'b'], 4, ['\'', 'b']⟩ ∧
    ∀ ts stop, Scanned ['a', ' ', '=', ' ', '\'', 'b'] ts stop →
      stop = some ⟨.unterminated '\'', ['a', ' ', '=', ' ', '\'', 'b'], 4, ['\'', 'b']⟩ := by
  have hparse : parse ['a', ' ', '=', ' ', '\'', 'b'] =
      .error ⟨.unterminated '\'', ['a', ' ', '=', ' ', '\'', 'b'], 4, ['\'', 'b']⟩ := by
    decide +kernel
  obtain ⟨-, hfault, -⟩ := fault_at_first_impossible _ ⟨'a', by decide, by decide⟩ _ hparse
  refine ⟨hparse, fun ts stop hscanned => ?_⟩
  obtain ⟨hfirst, hnone⟩ := hfault ts stop hscanned
  refine Decidable.byContradiction fun hne => hne (hnone fun front t back hsplit himpossible => ?_).2
  obtain ⟨hleading, houtrun⟩ := hfirst front t back hsplit himpossible
  -- a lexical fault is told at no token
  have hlexical := (hleading fun h => hne (houtrun h).2).1
  cases hlexical

end Conditions.Expression
