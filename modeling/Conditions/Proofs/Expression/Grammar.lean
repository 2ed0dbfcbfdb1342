import Conditions.Proofs.Expression.Feed

/-!
# The grammar of conditions

An expression is conjunctions joined by "or", a conjunction is primaries joined by "and", and a
primary is a group or a comparison. `Sentence` says which rows of tokens these rules allow, and
`Derives` which condition they give to a row; both count how deep groups are nested. What a parser
has read of a row is described frame by frame, so that every shifted token extends a derivation.
-/

set_option autoImplicit false

namespace Conditions.Expression

inductive Rule where
  | expression
  | conjunction
  | primary
  deriving DecidableEq, Repr

inductive Sentence : Rule → Nat → List Token → Prop where
  | disjunct {depth : Nat} {ts : List Token} (h : Sentence .conjunction depth ts) :
      Sentence .expression depth ts
  | or {depth : Nat} {ts us : List Token} {mark : Token} (left : Sentence .expression depth ts)
      (kind : mark.kind = .or) (right : Sentence .conjunction depth us) :
      Sentence .expression depth (ts ++ mark :: us)
  | conjunct {depth : Nat} {ts : List Token} (h : Sentence .primary depth ts) :
      Sentence .conjunction depth ts
  | and {depth : Nat} {ts us : List Token} {mark : Token} (left : Sentence .conjunction depth ts)
      (kind : mark.kind = .and) (right : Sentence .primary depth us) :
      Sentence .conjunction depth (ts ++ mark :: us)
  | group {depth : Nat} {ts : List Token} {opening closing : Token}
      (front : opening.kind = .leftParen) (inner : Sentence .expression depth ts)
      (back : closing.kind = .rightParen) :
      Sentence .primary (depth + 1) (opening :: (ts ++ [closing]))
  | comparison {depth : Nat} {left operator right : Token} (front : left.kind = .literal)
      (middle : operator.kind = .operator) (back : right.kind = .literal) :
      Sentence .primary depth [left, operator, right]

inductive Derives : Rule → Nat → List Token → Condition → Prop where
  | disjunct {depth : Nat} {ts : List Token} {c : Condition}
      (h : Derives .conjunction depth ts c) : Derives .expression depth ts c
  | or {depth : Nat} {ts us : List Token} {mark : Token} {l r : Condition}
      (left : Derives .expression depth ts l) (kind : mark.kind = .or)
      (right : Derives .conjunction depth us r) :
      Derives .expression depth (ts ++ mark :: us) (.or l r)
  | conjunct {depth : Nat} {ts : List Token} {c : Condition}
      (h : Derives .primary depth ts c) : Derives .conjunction depth ts c
  | and {depth : Nat} {ts us : List Token} {mark : Token} {l r : Condition}
      (left : Derives .conjunction depth ts l) (kind : mark.kind = .and)
      (right : Derives .primary depth us r) :
      Derives .conjunction depth (ts ++ mark :: us) (.and l r)
  | group {depth : Nat} {ts : List Token} {opening closing : Token} {c : Condition}
      (front : opening.kind = .leftParen) (inner : Derives .expression depth ts c)
      (back : closing.kind = .rightParen) :
      Derives .primary (depth + 1) (opening :: (ts ++ [closing])) c
  | comparison {depth : Nat} {left operator right : Token} {comparator : Comparator}
      (front : left.kind = .literal) (middle : operator.kind = .operator)
      (symbol : comparator.symbol = operator.text) (back : right.kind = .literal) :
      Derives .primary depth [left, operator, right]
        (.atom ⟨unquote left.text, comparator, unquote right.text⟩)

theorem Derives.ne_nil {rule : Rule} {depth : Nat} {ts : List Token} {c : Condition}
    (h : Derives rule depth ts c) : ts ≠ [] := by
  induction h with
  | disjunct _ ih => exact ih
  | or => simp
  | conjunct _ ih => exact ih
  | and => simp
  | group => simp
  | comparison => simp

theorem Derives.mono {rule : Rule} {depth depth' : Nat} {ts : List Token} {c : Condition}
    (h : Derives rule depth ts c) (hle : depth ≤ depth') : Derives rule depth' ts c := by
  induction h generalizing depth' with
  | disjunct _ ih => exact .disjunct (ih hle)
  | or _ kind _ ihl ihr => exact .or (ihl hle) kind (ihr hle)
  | conjunct _ ih => exact .conjunct (ih hle)
  | and _ kind _ ihl ihr => exact .and (ihl hle) kind (ihr hle)
  | group front _ back ih =>
    cases depth' with
    | zero => exact absurd hle (Nat.not_succ_le_zero _)
    | succ depth' => exact .group front (ih (Nat.le_of_succ_le_succ hle)) back
  | comparison front middle symbol back => exact .comparison front middle symbol back

def Rule.rank : Rule → Nat
  | .primary => 0
  | .conjunction => 1
  | .expression => 2

theorem Rule.rank_le (rule : Rule) : rule.rank ≤ Rule.expression.rank := by
  cases rule <;> decide

theorem Derives.widen {rule rule' : Rule} {depth : Nat} {ts : List Token} {c : Condition}
    (h : Derives rule depth ts c) (hle : rule.rank ≤ rule'.rank) : Derives rule' depth ts c := by
  cases rule with
  | primary =>
    cases rule' with
    | primary => exact h
    | conjunction => exact .conjunct h
    | expression => exact .disjunct (.conjunct h)
  | conjunction =>
    cases rule' with
    | primary => exact absurd hle (by decide)
    | conjunction => exact h
    | expression => exact .disjunct h
  | expression =>
    cases rule' with
    | expression => exact h
    | _ => exact absurd hle (by decide)

theorem Comparator.ofSymbol?_of_eq {c : Comparator} {t : Text} (h : c.symbol = t) :
    ofSymbol? t = some c := h ▸ ofSymbol?_symbol c

/-- What feeding a derived row to a parser that waits for a primary comes to, rule by rule: a
conjunction leaves the disjuncts in front of it alone, and a primary the whole frame. -/
def Shifts (depth : Nat) (ts : List Token) (c : Condition) (outer : List Frame) : Rule → Prop
  | .expression => ∃ frame read, frame.close read = c ∧
      State.feed depth ⟨.empty, outer, .primary⟩ ts = some ⟨frame, outer, .connective read⟩
  | .conjunction => ∀ disjuncts, ∃ conjuncts read, (Frame.mk disjuncts conjuncts).conjoin read = c ∧
      State.feed depth ⟨⟨disjuncts, none⟩, outer, .primary⟩ ts =
        some ⟨⟨disjuncts, conjuncts⟩, outer, .connective read⟩
  | .primary => ∀ frame,
      State.feed depth ⟨frame, outer, .primary⟩ ts = some ⟨frame, outer, .connective c⟩

theorem Derives.shifts {rule : Rule} {depth : Nat} {ts : List Token} {c : Condition}
    (h : Derives rule depth ts c) (base : Nat) (outer : List Frame)
    (hd : base + outer.length + depth ≤ maxDepth) : Shifts base ts c outer rule := by
  induction h generalizing outer with
  | disjunct _ ih =>
    obtain ⟨conjuncts, read, rfl, hf⟩ := ih outer hd none
    exact ⟨⟨none, conjuncts⟩, read, rfl, hf⟩
  | @or _ ts us mark l r _ kind _ ihl ihr =>
    obtain ⟨frame, read, hl, hf⟩ := ihl outer hd
    obtain ⟨conjuncts, read', hr, hf'⟩ := ihr outer hd (some l)
    refine ⟨⟨some l, conjuncts⟩, read', by rw [← hr]; rfl, ?_⟩
    rw [State.feed_append hf, State.feed, State.decision]
    simpa only [kind, hl] using hf'
  | conjunct _ ih => exact fun disjuncts => ⟨none, _, rfl, ih outer hd ⟨disjuncts, none⟩⟩
  | @and _ ts us mark l r _ kind _ ihl ihr =>
    intro disjuncts
    obtain ⟨conjuncts, read, hl, hf⟩ := ihl outer hd disjuncts
    refine ⟨some l, r, rfl, ?_⟩
    rw [State.feed_append hf, State.feed, State.decision]
    simpa only [kind, hl] using ihr outer hd ⟨disjuncts, some l⟩
  | @group depth ts opening closing c front _ back ih =>
    intro frame
    have hlt : base + outer.length < maxDepth := by omega
    obtain ⟨inner, read, hc, hf⟩ := ih (frame :: outer) (by simp only [List.length_cons]; omega)
    rw [State.feed, State.decision]
    simp only [front, hlt, if_true]
    rw [State.feed_append hf, State.feed, State.decision]
    simp only [back, hc, if_true, State.feed]
  | comparison front middle symbol back =>
    intro frame
    simp only [State.feed, State.decision, front, middle, back, Comparator.ofSymbol?_of_eq symbol]

/-- A row that ends with a connective of the given kind, behind an operand of the given rule; or
an empty row, when no operand waits. -/
inductive Awaiting (rule : Rule) (kind : TokenKind) (depth : Nat) :
    Option Condition → List Token → Prop where
  | nothing : Awaiting rule kind depth none []
  | left {ts : List Token} {t : Token} {l : Condition} (operand : Derives rule depth ts l)
      (connective : t.kind = kind) : Awaiting rule kind depth (some l) (ts ++ [t])

def Frame.Reads (f : Frame) (depth : Nat) (ts : List Token) : Prop :=
  ∃ us vs, ts = us ++ vs ∧ Awaiting .expression .or depth f.disjuncts us ∧
    Awaiting .conjunction .and depth f.conjuncts vs

theorem Awaiting.conjoin {depth : Nat} {f : Frame} {ts us : List Token} {c : Condition}
    (h : Awaiting .conjunction .and depth f.conjuncts ts) (hc : Derives .primary depth us c) :
    Derives .conjunction depth (ts ++ us) (f.conjoin c) := by
  obtain ⟨disjuncts, conjuncts⟩ := f
  cases h with
  | nothing => exact .conjunct hc
  | left operand connective =>
    rw [List.append_assoc]
    exact .and operand connective hc

theorem Frame.Reads.close {depth : Nat} {f : Frame} {ts us : List Token} {c : Condition}
    (h : f.Reads depth ts) (hc : Derives .primary depth us c) :
    Derives .expression depth (ts ++ us) (f.close c) := by
  obtain ⟨vs, ws, rfl, hv, hw⟩ := h
  have hj := hw.conjoin hc
  obtain ⟨disjuncts, conjuncts⟩ := f
  cases hv with
  | nothing => exact .disjunct hj
  | left operand connective =>
    rw [List.append_assoc, List.append_assoc]
    exact .or operand connective hj

inductive Enclosed (depth : Nat) : List Frame → List Token → Prop where
  | nil : Enclosed depth [] []
  | cons {f : Frame} {outer : List Frame} {ts us : List Token} {t : Token}
      (around : Enclosed depth outer ts) (front : f.Reads (depth - outer.length) us)
      (opening : t.kind = .leftParen) (room : outer.length < depth) :
      Enclosed depth (f :: outer) (ts ++ us ++ [t])

inductive Wanted.Reads (depth : Nat) : Wanted → List Token → Prop where
  | primary : Reads depth .primary []
  | operator {left : Token} (front : left.kind = .literal) :
      Reads depth (.operator left.text) [left]
  | rightOperand {left operator : Token} {comparator : Comparator} (front : left.kind = .literal)
      (middle : operator.kind = .operator) (symbol : comparator.symbol = operator.text) :
      Reads depth (.rightOperand left.text comparator) [left, operator]
  | connective {ts : List Token} {c : Condition} (h : Derives .primary depth ts c) :
      Reads depth (.connective c) ts

def State.Reads (s : State) (depth : Nat) (ts : List Token) : Prop :=
  ∃ us vs ws, ts = us ++ vs ++ ws ∧ Enclosed depth s.outer us ∧
    s.frame.Reads (depth - s.outer.length) vs ∧ s.wanted.Reads (depth - s.outer.length) ws

theorem Frame.reads_empty (depth : Nat) : Frame.empty.Reads depth [] :=
  ⟨[], [], rfl, .nothing, .nothing⟩

theorem State.reads_initial (depth : Nat) : State.initial.Reads depth [] :=
  ⟨[], [], [], rfl, .nil, Frame.reads_empty _, .primary⟩

theorem State.Reads.shift {s s' : State} {base depth : Nat} {ts : List Token} {t : Token}
    (h : s.Reads depth ts) (hb : base + depth = maxDepth)
    (hd : s.decision (base + s.outer.length) t = .shift s') : s'.Reads depth (ts ++ [t]) := by
  obtain ⟨us, vs, ws, rfl, ho, hf, hw⟩ := h
  obtain ⟨frame, outer, wanted⟩ := s
  simp only at ho hf hw
  rw [decision] at hd
  cases hw with
  | primary =>
    simp only at hd
    split at hd
    · rename_i hk
      split at hd
      · rename_i hlt
        simp only [Decision.shift.injEq] at hd
        subst hd
        refine ⟨us ++ vs ++ [t], [], [], by simp, ?_, Frame.reads_empty _, .primary⟩
        exact .cons ho hf hk (by omega)
      · cases hd
    · rename_i hk
      simp only [Decision.shift.injEq] at hd
      subst hd
      exact ⟨us, vs, [t], by simp, ho, hf, .operator hk⟩
    · cases hd
  | @operator left front =>
    simp only at hd
    split at hd
    · rename_i hk
      split at hd
      · rename_i comparator hs
        simp only [Decision.shift.injEq] at hd
        subst hd
        exact ⟨us, vs, [left, t], by simp, ho, hf,
          .rightOperand front hk (Comparator.symbol_of_ofSymbol? hs)⟩
      · cases hd
    · cases hd
  | @rightOperand left operator comparator front middle symbol =>
    simp only at hd
    split at hd
    · rename_i hk
      simp only [Decision.shift.injEq] at hd
      subst hd
      exact ⟨us, vs, [left, operator, t], by simp, ho, hf,
        .connective (.comparison front middle symbol hk)⟩
    · cases hd
  | @connective _ c hc =>
    obtain ⟨xs, ys, rfl, hx, hy⟩ := hf
    simp only at hd
    split at hd
    · rename_i hk
      simp only [Decision.shift.injEq] at hd
      subst hd
      refine ⟨us, xs ++ (ys ++ ws ++ [t]), [], by simp, ho, ?_, .primary⟩
      exact ⟨xs, ys ++ ws ++ [t], rfl, hx, .left (hy.conjoin hc) hk⟩
    · rename_i hk
      simp only [Decision.shift.injEq] at hd
      subst hd
      refine ⟨us, xs ++ ys ++ ws ++ [t], [], by simp, ho, ?_, .primary⟩
      refine ⟨xs ++ ys ++ ws ++ [t], [], by simp, .left ?_ hk, .nothing⟩
      exact Frame.Reads.close ⟨xs, ys, rfl, hx, hy⟩ hc
    · split at hd
      · cases hd
      · rename_i around outer
        split at hd
        · rename_i hk
          simp only [Decision.shift.injEq] at hd
          subst hd
          cases ho with
          | @cons _ _ before inside opening ha hr hp room =>
            refine ⟨before, inside, opening :: (xs ++ ys ++ ws ++ [t]), by simp, ha, hr,
              .connective ?_⟩
            have hg := Frame.Reads.close ⟨xs, ys, rfl, hx, hy⟩ hc
            have hdepth : depth - outer.length = depth - (outer.length + 1) + 1 := by omega
            simp only [List.length_cons] at hg ⊢
            rw [hdepth]
            exact .group hp hg hk
        · cases hd

theorem State.Reads.feed {s s' : State} {base depth : Nat} {ts us : List Token}
    (h : s.Reads depth ts) (hb : base + depth = maxDepth) (hf : s.feed base us = some s') :
    s'.Reads depth (ts ++ us) := by
  induction us generalizing s ts with
  | nil =>
    simp only [State.feed, Option.some.injEq] at hf
    rwa [List.append_nil, ← hf]
  | cons t us ih =>
    simp only [State.feed] at hf
    split at hf
    · rename_i s'' hd
      have := ih (h.shift hb hd) hf
      rwa [List.append_assoc] at this
    · cases hf

/-- A condition ends only outside all groups, and is then what the whole row derives. -/
theorem State.Reads.accept {s : State} {base depth : Nat} {ts : List Token} {t : Token}
    {c : Condition} (h : s.Reads depth ts)
    (hd : s.decision (base + s.outer.length) t = .accept c) : Derives .expression depth ts c := by
  obtain ⟨us, vs, ws, rfl, ho, hf, hw⟩ := h
  obtain ⟨frame, outer, wanted⟩ := s
  rw [decision] at hd
  cases hw with
  | primary =>
    simp only at hd
    split at hd
    · split at hd <;> cases hd
    · cases hd
    · cases hd
  | operator =>
    simp only at hd
    split at hd
    · split at hd <;> cases hd
    · cases hd
  | rightOperand =>
    simp only at hd
    split at hd <;> cases hd
  | connective hc =>
    simp only at hd
    split at hd
    · cases hd
    · cases hd
    · split at hd
      · simp only [Decision.accept.injEq] at hd
        subst hd
        cases ho
        exact hf.close hc
      · split at hd <;> cases hd

end Conditions.Expression
