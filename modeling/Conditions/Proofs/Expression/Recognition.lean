import Conditions.Proofs.Expression.Grammar
import Mathlib.Data.List.TakeWhile

/-!
# Which sources are conditions

A source is a condition exactly if its tokens in front of the end form a sentence in which no
operator is a lone `=`; it then is the condition that the grammar derives from them.
-/

set_option autoImplicit false

namespace Conditions.Expression

def Tokenized (source : Text) (ts : List Token) : Prop :=
  ∃ e, e.kind = .eof ∧ tokens source = .ok (ts ++ [e])

def Wellformed (source : Text) : Prop :=
  ∃ ts, Tokenized source ts ∧ Sentence .expression 50 ts ∧
    ∀ t ∈ ts, t.kind = .operator → t.text ≠ ['=']

theorem scan_operator {position : Nat} {t back : Text} {token : Token}
    (h : scan position t = .ok (token, back)) (hk : token.kind = .operator) :
    (.operator, token.text) ∈ symbols := by
  unfold scan at h
  simp only at h
  split at h
  · simp only [Except.ok.injEq, Prod.mk.injEq] at h
    rw [← h.1] at hk
    cases hk
  · split at h
    · rename_i kind symbol hs
      simp only [Except.ok.injEq, Prod.mk.injEq] at h
      have hm := symbolAt?_mem hs
      rw [← h.1] at hk ⊢
      simp only at hk
      rwa [hk] at hm
    · split at h
      · simp only [Except.ok.injEq, Prod.mk.injEq] at h
        rw [← h.1] at hk
        cases hk
      · cases h

theorem Cursor.operator_of_tokens {c : Cursor} {ts : List Token}
    (h : c.tokens = .ok ts)
    (hc : c.current.kind = .operator → (.operator, c.current.text) ∈ symbols) :
    ∀ t ∈ ts, t.kind = .operator → (.operator, t.text) ∈ symbols := by
  induction ts generalizing c with
  | nil => simp
  | cons t ts ih =>
    intro u hu hk
    obtain ⟨rfl, ⟨-, rfl⟩ | ⟨he, c', hn, hc'⟩⟩ := Cursor.tokens_cons h
    · rw [List.mem_singleton.mp hu] at hk ⊢
      exact hc hk
    · rcases List.mem_cons.mp hu with rfl | hu
      · exact hc hk
      · refine ih hc' (fun hk => ?_) u hu hk
        simp only [next, he, Bool.false_eq_true, if_false] at hn
        exact scan_operator (scanAt_ok hn) hk

theorem operator_of_tokens {source : Text} {ts : List Token} (h : tokens source = .ok ts) :
    ∀ t ∈ ts, t.kind = .operator → (.operator, t.text) ∈ symbols := by
  unfold tokens at h
  cases hc : Cursor.start source with
  | error fault => simp [hc, Except.bind] at h
  | ok c =>
    rw [hc] at h
    exact Cursor.operator_of_tokens h fun hk => scan_operator (Cursor.scanAt_ok hc) hk

theorem comparator_of_symbols :
    ∀ s ∈ symbols, s.1 = .operator → s.2 ≠ ['='] → (Comparator.ofSymbol? s.2).isSome = true := by
  decide

theorem Comparator.symbol_ne_lone (c : Comparator) : c.symbol ≠ ['='] := by
  cases c <;> decide

theorem Derives.sentence {rule : Rule} {depth : Nat} {ts : List Token} {c : Condition}
    (h : Derives rule depth ts c) :
    Sentence rule depth ts ∧ ∀ t ∈ ts, t.kind = .operator → t.text ≠ ['='] := by
  induction h with
  | disjunct _ ih => exact ⟨.disjunct ih.1, ih.2⟩
  | or _ kind _ ihl ihr =>
    refine ⟨.or ihl.1 kind ihr.1, fun t ht hk => ?_⟩
    rcases List.mem_append.mp ht with ht | ht
    · exact ihl.2 t ht hk
    · rcases List.mem_cons.mp ht with rfl | ht
      · rw [kind] at hk
        cases hk
      · exact ihr.2 t ht hk
  | conjunct _ ih => exact ⟨.conjunct ih.1, ih.2⟩
  | and _ kind _ ihl ihr =>
    refine ⟨.and ihl.1 kind ihr.1, fun t ht hk => ?_⟩
    rcases List.mem_append.mp ht with ht | ht
    · exact ihl.2 t ht hk
    · rcases List.mem_cons.mp ht with rfl | ht
      · rw [kind] at hk
        cases hk
      · exact ihr.2 t ht hk
  | group front _ back ih =>
    refine ⟨.group front ih.1 back, fun t ht hk => ?_⟩
    rcases List.mem_cons.mp ht with rfl | ht
    · rw [front] at hk
      cases hk
    · rcases List.mem_append.mp ht with ht | ht
      · exact ih.2 t ht hk
      · rw [List.mem_singleton.mp ht, back] at hk
        cases hk
  | @comparison _ left operator right comparator front middle symbol back =>
    refine ⟨.comparison front middle back, fun t ht hk => ?_⟩
    simp only [List.mem_cons, List.not_mem_nil, or_false] at ht
    rcases ht with rfl | rfl | rfl
    · rw [front] at hk
      cases hk
    · exact symbol ▸ comparator.symbol_ne_lone
    · rw [back] at hk
      cases hk

/-- A sentence derives a condition as soon as each of its operators has a comparator. -/
theorem Sentence.derives {rule : Rule} {depth : Nat} {ts : List Token}
    (h : Sentence rule depth ts)
    (ho : ∀ t ∈ ts, t.kind = .operator → (Comparator.ofSymbol? t.text).isSome = true) :
    ∃ c, Derives rule depth ts c := by
  induction h with
  | disjunct _ ih =>
    obtain ⟨c, hc⟩ := ih ho
    exact ⟨c, .disjunct hc⟩
  | or _ kind _ ihl ihr =>
    obtain ⟨l, hl⟩ := ihl fun t ht => ho t (by simp [ht])
    obtain ⟨r, hr⟩ := ihr fun t ht => ho t (by simp [ht])
    exact ⟨.or l r, .or hl kind hr⟩
  | conjunct _ ih =>
    obtain ⟨c, hc⟩ := ih ho
    exact ⟨c, .conjunct hc⟩
  | and _ kind _ ihl ihr =>
    obtain ⟨l, hl⟩ := ihl fun t ht => ho t (by simp [ht])
    obtain ⟨r, hr⟩ := ihr fun t ht => ho t (by simp [ht])
    exact ⟨.and l r, .and hl kind hr⟩
  | group front _ back ih =>
    obtain ⟨c, hc⟩ := ih fun t ht => ho t (by simp [ht])
    exact ⟨c, .group front hc back⟩
  | comparison front middle back =>
    obtain ⟨comparator, hs⟩ := Option.isSome_iff_exists.mp (ho _ (by simp) middle)
    exact ⟨_, .comparison front middle (Comparator.symbol_of_ofSymbol? hs) back⟩

theorem tokens_blank {source : Text} (h : source.all Text.isBlank = true) :
    ∃ e, tokens source = .ok [e] := by
  have hd : source.dropWhile Text.isBlank = [] := by
    rw [List.dropWhile_eq_nil_iff]
    exact List.all_eq_true.mp h
  refine ⟨⟨.eof, [], 0 + (source.takeWhile Text.isBlank).length⟩, ?_⟩
  unfold tokens Cursor.start Cursor.scanAt scan
  simp only [hd, List.isEmpty_nil, if_true]
  exact Cursor.tokens_atEnd rfl

theorem parse_of_derives {source : Text} {ts : List Token} {c : Condition}
    (ht : Tokenized source ts) (h : Derives .expression maxDepth ts c) : parse source = .ok c := by
  obtain ⟨e, he, ht⟩ := ht
  have hb : source.all Text.isBlank = false := by
    cases hb : source.all Text.isBlank with
    | false => rfl
    | true =>
      obtain ⟨e', hblank⟩ := tokens_blank hb
      rw [ht, Except.ok.injEq, List.append_eq_singleton_iff] at hblank
      rcases hblank with ⟨hnil, -⟩ | ⟨-, hnil⟩
      · exact absurd hnil h.ne_nil
      · cases hnil
  unfold tokens at ht
  cases hs : Cursor.start source with
  | error fault => simp [hs, Except.bind] at ht
  | ok start =>
    rw [hs] at ht
    obtain ⟨frame, read, hclose, hf⟩ := h.shifts 0 [] (by simp)
    obtain ⟨c', hc', hr⟩ := run_of_feed ht (List.cons_ne_nil e []) hf
    have hcur : c'.current = e := (Cursor.tokens_cons hc').1
    have ha : run 0 c' ⟨frame, [], .connective read⟩ = ⟨.ok c, c', 0⟩ := by
      refine run_accept ?_
      simp only [State.decision, hcur, he, hclose]
    unfold parse
    simp only [hb, Bool.false_eq_true, if_false, hs, Parser.condition, Parser.ofCursor,
      State.initial, hr, ha, hcur, he, if_true, bind, Except.bind, pure, Except.pure]

theorem derives_of_parse {source : Text} {c : Condition} (h : parse source = .ok c) :
    ∃ ts, Tokenized source ts ∧ Derives .expression maxDepth ts c := by
  unfold parse at h
  split at h
  · cases h
  · cases hs : Cursor.start source with
    | error fault => simp [hs, bind, Except.bind] at h
    | ok start =>
      simp only [hs, Parser.condition, Parser.ofCursor, bind, Except.bind] at h
      cases ha : (run 0 start .initial).answer with
      | error fault => simp [ha] at h
      | ok c' =>
        simp only [ha] at h
        by_cases he : (run 0 start .initial).cursor.current.kind = .eof
        · simp only [he, if_true, pure, Except.pure, Except.ok.injEq] at h
          subst h
          obtain ⟨ts, s', hf, hd, ht⟩ := feed_of_run ha
          refine ⟨ts, ⟨_, he, ?_⟩, ?_⟩
          · unfold tokens
            rw [hs]
            exact ht _ (Cursor.tokens_atEnd (by simp [Cursor.atEnd, he]))
          · have := (State.reads_initial maxDepth).feed (Nat.zero_add _) hf
            exact this.accept hd
        · simp only [he, if_false] at h
          cases h

theorem wellformed_iff_derives (source : Text) :
    Wellformed source ↔ ∃ ts c, Tokenized source ts ∧ Derives .expression maxDepth ts c := by
  constructor
  · rintro ⟨ts, ⟨e, he, ht⟩, hs, ho⟩
    obtain ⟨c, hc⟩ := hs.derives fun t hmem hk =>
      comparator_of_symbols _ (operator_of_tokens ht t (by simp [hmem]) hk) rfl (ho t hmem hk)
    exact ⟨ts, c, ⟨e, he, ht⟩, hc⟩
  · rintro ⟨ts, c, ht, hc⟩
    exact ⟨ts, ht, hc.sentence⟩

theorem parse_eq_ok_iff_derives (source : Text) (c : Condition) :
    parse source = .ok c ↔ ∃ ts, Tokenized source ts ∧ Derives .expression maxDepth ts c :=
  ⟨derives_of_parse, fun ⟨_, ht, hc⟩ => parse_of_derives ht hc⟩

/-- A source is a condition exactly if it is well-formed. It is then the condition that the grammar
derives from its tokens, and every other source has a fault. -/
theorem parse_iff_wellformed (source : Text) :
    ((∃ c, parse source = .ok c) ↔ Wellformed source) ∧
    (∀ c, parse source = .ok c ↔ ∃ ts, Tokenized source ts ∧ Derives .expression 50 ts c) ∧
    ((∃ fault, parse source = .error fault) ↔ ¬ Wellformed source) := by
  have hok : (∃ c, parse source = .ok c) ↔ Wellformed source := by
    rw [wellformed_iff_derives]
    constructor
    · rintro ⟨c, hc⟩
      obtain ⟨ts, ht, hd⟩ := derives_of_parse hc
      exact ⟨ts, c, ht, hd⟩
    · rintro ⟨ts, c, ht, hc⟩
      exact ⟨c, parse_of_derives ht hc⟩
  refine ⟨hok, parse_eq_ok_iff_derives source, ?_⟩
  rw [← hok]
  cases hp : parse source with
  | ok c => simp
  | error fault => simp

end Conditions.Expression
