import Conditions.Proofs.Expression.Writing
import Mathlib.Data.List.Forall2

/-!
# Sources inside other sources

A closing parenthesis is part of no other symbol, so what stands in front of it is cut into tokens
as if the source ended there. A source that is a condition is therefore the same condition inside
parentheses, whatever it begins or ends with, and sources in parentheses can be joined into one.
-/

set_option autoImplicit false

namespace Conditions.Expression

structure Separates (c : Char) : Prop where
  alone : ∀ s ∈ symbols, c ∈ s.2 → s.2 = [c]
  boundary : ∀ after, Boundary (c :: after)

theorem separates_closing : Separates ')' where
  alone := by decide
  boundary after := .inr ⟨(.rightParen, [')']), by decide, List.prefix_append _ _⟩

namespace Separates

variable {c : Char} (hc : Separates c) {t : Text} (ht : t ≠ []) (after : Text)
include hc ht

/-- No symbol reaches from a text into the character behind it. -/
theorem symbol_append {s : TokenKind × Text} (hs : s ∈ symbols) :
    s.2 <+: t ++ c :: after ↔ s.2 <+: t := by
  constructor
  · intro hfits
    rcases Nat.lt_or_ge t.length s.2.length with hlt | hle
    · -- the symbol would hold the character, and be nothing but that character
      have hat := List.prefix_iff_getElem?.mp hfits t.length hlt
      rw [List.getElem?_append_right (Nat.le_refl _), Nat.sub_self] at hat
      have hmem : c ∈ s.2 := by
        rw [Option.some.inj hat]
        exact List.getElem_mem hlt
      have hpos := List.length_pos_iff.mpr ht
      rw [hc.alone s hs hmem, List.length_singleton] at hlt
      omega
    · exact List.prefix_of_prefix_length_le hfits (List.prefix_append _ _) hle
  · exact fun hfits => hfits.trans (List.prefix_append _ _)

theorem boundary_append : Boundary (t ++ c :: after) ↔ Boundary t := by
  have hhead : (t ++ c :: after).head? = t.head? := by
    rw [List.head?_append, Option.or_of_isSome (List.isSome_head?.mpr ht)]
  unfold Boundary
  rw [hhead]
  refine or_congr Iff.rfl (exists_congr fun s => and_congr_right fun hs => ?_)
  exact hc.symbol_append ht after hs

omit ht in
theorem takes_append {q : Quoting} {n : Nat} (h : Takes q t n) : Takes q (t ++ c :: after) n := by
  have htake : ∀ k ≤ n, (t ++ c :: after).take k = t.take k :=
    fun k hk => List.take_append_of_le_length (Nat.le_trans hk h.bound)
  have hdrop : ∀ k ≤ n, (t ++ c :: after).drop k = t.drop k ++ c :: after :=
    fun k hk => List.drop_append_of_le_length (Nat.le_trans hk h.bound)
  refine ⟨?_, fun k hk houtside hboundary => ?_, ?_, .inr ?_⟩
  · have := h.bound
    rw [List.length_append]
    omega
  · rw [htake k hk.le] at houtside
    rw [hdrop k hk.le] at hboundary
    have hrest : t.drop k ≠ [] := by
      have := h.bound
      rw [ne_eq, List.drop_eq_nil_iff]
      omega
    exact h.unbroken k hk houtside ((hc.boundary_append hrest after).mp hboundary)
  · rw [htake n (Nat.le_refl n)]
    exact h.outside
  · rw [hdrop n (Nat.le_refl n)]
    by_cases hrest : t.drop n = []
    · rw [hrest]
      exact hc.boundary after
    · exact (hc.boundary_append hrest after).mpr (h.stops.resolve_left hrest)

end Separates

def Token.moved (n : Nat) (t : Token) : Token := { t with position := n + t.position }

theorem Derives.moved {rule : Rule} {depth : Nat} {ts : List Token} {c : Condition}
    (h : Derives rule depth ts c) (n : Nat) : Derives rule depth (ts.map (Token.moved n)) c := by
  induction h with
  | disjunct _ ih => exact .disjunct ih
  | or _ kind _ ihl ihr =>
    rw [List.map_append, List.map_cons]
    exact .or ihl kind ihr
  | conjunct _ ih => exact .conjunct ih
  | and _ kind _ ihl ihr =>
    rw [List.map_append, List.map_cons]
    exact .and ihl kind ihr
  | group front _ back ih =>
    rw [List.map_cons, List.map_append, List.map_singleton]
    exact .group front ih back
  | @comparison _ left operator right _ front middle symbol back =>
    change Derives .primary _ [left.moved n, operator.moved n, right.moved n]
      (.atom ⟨unquote (left.moved n).text, _, unquote (right.moved n).text⟩)
    exact .comparison front middle symbol back

section
variable {c : Char} (hc : Separates c) {source text after : Text} {k : Nat}
  (hsource : source.drop k = text ++ c :: after)
include hsource

theorem drop_within {i : Nat} (hi : i ≤ text.length) :
    source.drop (k + i) = text.drop i ++ c :: after := by
  rw [← List.drop_drop, hsource, List.drop_append_of_le_length hi]

theorem Gap.within {i j : Nat} (h : Gap text i j) (hj : j ≤ text.length) :
    Gap source (k + i) (k + j) := by
  obtain ⟨blanks, hblanks, hlength, hdrop⟩ := h.blanks
  have hle := h.1
  have hfront : source.drop (k + i) = blanks ++ (text.drop j ++ c :: after) := by
    rw [drop_within hsource (Nat.le_trans hle hj), hdrop, List.append_assoc]
  have hend : k + j = k + i + blanks.length := by omega
  rw [hend]
  exact .of_blanks hblanks hfront

include hc

theorem Fits.within {t : Token} (h : Fits text t) : Fits source (t.moved k) := by
  have hstop := h.stop_le
  have hdrop : source.drop (t.moved k).position = text.drop t.position ++ c :: after :=
    drop_within hsource (by omega)
  have hrest : text.drop t.position ≠ [] := by
    rw [ne_eq, List.drop_eq_nil_iff]
    omega
  refine ⟨h.nonempty, ?_, ?_⟩
  · rw [hdrop]
    exact h.slice.trans (List.prefix_append _ _)
  · rw [hdrop]
    rcases h.kind with ⟨hmem, hlongest⟩ | ⟨hkind, htakes⟩
    · exact .inl ⟨hmem, fun s hs hfits =>
        hlongest s hs ((hc.symbol_append hrest after hs).mp hfits)⟩
    · exact .inr ⟨hkind, hc.takes_append after htakes⟩

theorem Covers.within {i j : Nat} {ts : List Token} (h : Covers text i ts j)
    (hj : j ≤ text.length) : Covers source (k + i) (ts.map (Token.moved k)) (k + j) := by
  induction h with
  | nil gap => exact .nil (gap.within hsource hj)
  | @cons i j t ts gap fits _ ih =>
    have hstop := fits.stop_le
    have hmoved : (t.moved k).stop = k + t.stop := Nat.add_assoc _ _ _
    refine .cons (gap.within hsource (by omega)) (fits.within hc hsource) ?_
    rw [hmoved]
    exact ih hj

end

def NestsWithin (depth : Nat) (source : Text) : Prop :=
  ∃ ts, Tokenized source ts ∧ Sentence .expression depth ts

def Yields (depth : Nat) (source : Text) (c : Condition) : Prop :=
  ∃ ts, Tokenized source ts ∧ Derives .expression depth ts c

theorem Tokenized.covers {source : Text} {ts : List Token} (h : Tokenized source ts) :
    Covers source 0 ts source.length := by
  obtain ⟨e, -, htokens⟩ := h
  obtain ⟨front, j, hcovers, rfl | ⟨n, mark, hopen⟩⟩ := covers_total (Nat.zero_le source.length)
  · rw [tokens_of_covers hcovers, Except.ok.injEq] at htokens
    rwa [← List.append_inj_left' htokens rfl]
  · rw [tokens_of_stuck ⟨front, j, n, mark, hcovers, hopen, rfl⟩] at htokens
    cases htokens

theorem Tokenized.unique {source : Text} {ts us : List Token} (h : Tokenized source ts)
    (h' : Tokenized source us) : ts = us := by
  obtain ⟨e, -, htokens⟩ := h
  obtain ⟨e', -, htokens'⟩ := h'
  rw [htokens, Except.ok.injEq] at htokens'
  exact List.append_inj_left' htokens' rfl

theorem NestsWithin.yields {depth : Nat} {source : Text} {c : Condition}
    (h : NestsWithin depth source) (hparse : parse source = .ok c) (hdepth : depth ≤ maxDepth) :
    Yields depth source c := by
  obtain ⟨ts, htokens, hsentence⟩ := h
  obtain ⟨us, hus, hderives⟩ := derives_of_parse hparse
  obtain rfl := htokens.unique hus
  obtain ⟨e, -, hall⟩ := htokens
  obtain ⟨c', hc'⟩ := hsentence.derives fun t hmem hkind =>
    comparator_of_symbols _ (operator_of_tokens hall t (by simp [hmem]) hkind) rfl
      (hderives.sentence.2 t hmem hkind)
  have hsame := parse_of_derives hus (hc'.mono hdepth)
  rw [hparse, Except.ok.injEq] at hsame
  exact ⟨ts, hus, hsame ▸ hc'⟩

/-- In parentheses a source is one group deeper, and else the same. -/
theorem Yields.enclosed {depth : Nat} {source : Text} {c : Condition} (h : Yields depth source c) :
    Reads (fun us => Derives .primary (depth + 1) us c) (enclosed true source) := by
  obtain ⟨ts, htokens, hderives⟩ := h
  have hinside : ReadsInside (fun us => Derives .expression depth us c) source :=
    fun whole after k hwhole => ⟨_, htokens.covers.within separates_closing hwhole
      (Nat.le_refl _), hderives.moved k⟩
  refine hinside.group.mono ?_
  rintro us ⟨opening, vs, closing, rfl, hopening, hvs, hclosing⟩
  exact .group hopening hvs hclosing

theorem parse_of_reads {rule : Rule} {depth : Nat} {source : Text} {c : Condition}
    (h : Reads (fun ts => Derives rule depth ts c) source) (hdepth : depth ≤ maxDepth) :
    parse source = .ok c := by
  obtain ⟨ts, hcovers, hderives⟩ := h source [] 0 (by simp) (.inl rfl)
  rw [Nat.zero_add] at hcovers
  exact parse_of_derives ⟨_, rfl, tokens_of_covers hcovers⟩
    ((hderives.mono hdepth).widen (Rule.rank_le _))

/-- A symbol that no other one begins with needs no spaces around it. -/
theorem Reads.abutting {form form' : List Token → Prop} {l r : Text} (hl : Reads form l)
    (hr : Reads form' r) {s : TokenKind × Text} (hs : s ∈ symbols)
    (halone : ∀ s' ∈ symbols, s.2 <+: s'.2 → s'.2 = s.2) :
    Reads (fun ts => ∃ us mark vs, ts = us ++ mark :: vs ∧ form us ∧ mark.kind = s.1 ∧ form' vs)
      (l ++ (s.2 ++ r)) := by
  intro source after i hsource hafter
  rw [List.append_assoc, List.append_assoc] at hsource
  have hmark := drop_behind hsource
  have hright := drop_behind hmark
  obtain ⟨us, hus, hform⟩ := hl source _ i hsource (.inr (.inr ⟨s, hs, List.prefix_append _ _⟩))
  obtain ⟨vs, hvs, hform'⟩ := hr source after _ hright hafter
  have hall := hus.append ((Covers.token (fits_alone hs halone hmark)).append hvs)
  refine ⟨_, ?_, us, ⟨s.1, s.2, i + l.length⟩, vs, rfl, hform, rfl, hform'⟩
  rw [List.length_append, List.length_append, ← Nat.add_assoc, ← Nat.add_assoc]
  exact hall

/-- In parentheses a condition is the same condition, and two of them make an "and" or an "or",
whatever their sources begin and end with. -/
theorem parse_composed {source source' : Text} {c c' : Condition} (hparse : parse source = .ok c)
    (hnests : NestsWithin 49 source) (hparse' : parse source' = .ok c')
    (hnests' : NestsWithin 49 source') :
    parse ("(".toList ++ source ++ ")".toList) = .ok c ∧
      parse ("(".toList ++ source ++ ")&&(".toList ++ source' ++ ")".toList) = .ok (.and c c') ∧
      parse ("(".toList ++ source ++ ")||(".toList ++ source' ++ ")".toList) = .ok (.or c c') := by
  have hfront := (hnests.yields hparse (by decide)).enclosed
  have hback := (hnests'.yields hparse' (by decide)).enclosed
  have hand : Reads (fun ts => Derives .conjunction 50 ts (.and c c'))
      (enclosed true source ++ (['&', '&'] ++ enclosed true source')) := by
    refine (hfront.abutting hback (s := (.and, ['&', '&'])) (by decide) (by decide)).mono ?_
    rintro ts ⟨us, mark, vs, rfl, hus, hkind, hvs⟩
    exact .and (.conjunct hus) hkind hvs
  have hor : Reads (fun ts => Derives .expression 50 ts (.or c c'))
      (enclosed true source ++ (['|', '|'] ++ enclosed true source')) := by
    refine (hfront.abutting hback (s := (.or, ['|', '|'])) (by decide) (by decide)).mono ?_
    rintro ts ⟨us, mark, vs, rfl, hus, hkind, hvs⟩
    exact .or (.disjunct (.conjunct hus)) hkind (.conjunct hvs)
  refine ⟨?_, ?_, ?_⟩
  · simpa [enclosed] using parse_of_reads hfront (by decide)
  · simpa [enclosed] using parse_of_reads hand (by decide)
  · simpa [enclosed] using parse_of_reads hor (by decide)

/-- Marks at both ends that are nothing but text: a quote, a backslash, and single characters of
longer symbols. -/
theorem parse_composed_marks :
    let source := "'(' == \\&".toList
    let source' := "!x < \"|\"| ".toList
    let c : Condition := .atom ⟨['('], .equal, ['\\', '&']⟩
    let c' : Condition := .atom ⟨['!', 'x'], .less, ['"', '|', '"', '|']⟩
    parse source = .ok c ∧ NestsWithin 49 source ∧ parse source' = .ok c' ∧
      NestsWithin 49 source' ∧
      parse ("(".toList ++ source ++ ")".toList) = .ok c ∧
      parse ("(".toList ++ source ++ ")&&(".toList ++ source' ++ ")".toList) = .ok (.and c c') ∧
      parse ("(".toList ++ source ++ ")||(".toList ++ source' ++ ")".toList) = .ok (.or c c') := by
  intro source source' c c'
  have hparse : parse source = .ok c := by decide +kernel
  have hparse' : parse source' = .ok c' := by decide +kernel
  have hnests : NestsWithin 49 source :=
    ⟨[⟨.literal, "'('".toList, 0⟩, ⟨.operator, ['=', '='], 4⟩, ⟨.literal, ['\\', '&'], 7⟩],
      ⟨⟨.eof, [], 9⟩, rfl, by decide +kernel⟩, .disjunct (.conjunct (.comparison rfl rfl rfl))⟩
  have hnests' : NestsWithin 49 source' :=
    ⟨[⟨.literal, ['!', 'x'], 0⟩, ⟨.operator, ['<'], 3⟩, ⟨.literal, ['"', '|', '"', '|'], 5⟩],
      ⟨⟨.eof, [], 10⟩, rfl, by decide +kernel⟩, .disjunct (.conjunct (.comparison rfl rfl rfl))⟩
  exact ⟨hparse, hnests, hparse', hnests', parse_composed hparse hnests hparse' hnests'⟩

def conjunction (lines : List Text) : Text :=
  List.intercalate [' ', '&', '&', ' '] (lines.map (enclosed true))

theorem conjunction_cons (line : Text) (lines : List Text) :
    conjunction (line :: lines) =
      enclosed true line ++ lines.flatMap fun l => [' ', '&', '&', ' '] ++ enclosed true l := by
  induction lines generalizing line with
  | nil => simp [conjunction]
  | cons next lines ih =>
    have hnext := ih next
    unfold conjunction at hnext ⊢
    rw [List.map_cons] at hnext
    rw [List.map_cons, List.map_cons, List.intercalate_cons_cons, hnext]
    simp

theorem reads_conjuncts {depth : Nat} {lines : List Text} {cs : List Condition}
    (h : List.Forall₂ (Yields depth) lines cs) {t : Text} {c : Condition}
    (ht : Reads (fun ts => Derives .conjunction (depth + 1) ts c) t) :
    Reads (fun ts => Derives .conjunction (depth + 1) ts (cs.foldl .and c))
      (t ++ lines.flatMap fun l => [' ', '&', '&', ' '] ++ enclosed true l) := by
  induction h generalizing t c with
  | nil => simpa using ht
  | @cons line c' lines cs hline _ ih =>
    have hjoined : Reads (fun ts => Derives .conjunction (depth + 1) ts (.and c c'))
        (spaced t ['&', '&'] (enclosed true line)) := by
      refine (ht.spaced hline.enclosed (s := (.and, ['&', '&'])) (by decide)).mono ?_
      rintro ts ⟨us, mark, vs, rfl, hus, hkind, -, hvs⟩
      exact .and hus hkind hvs
    have hrest := ih hjoined
    rw [List.foldl_cons, List.flatMap_cons, ← List.append_assoc]
    simpa [spaced] using hrest

/-- Joined lines are parsed to the "and" of what each of them is parsed to. -/
theorem parse_conjunction {depth : Nat} {line : Text} {lines : List Text} {c : Condition}
    {cs : List Condition} (h : List.Forall₂ (Yields depth) (line :: lines) (c :: cs))
    (hdepth : depth < maxDepth) :
    parse (conjunction (line :: lines)) = .ok (cs.foldl .and c) := by
  cases h with
  | cons hline hlines =>
    have hfirst : Reads (fun us => Derives .conjunction (depth + 1) us c) (enclosed true line) :=
      hline.enclosed.mono fun us hus => .conjunct hus
    have hreads := reads_conjuncts hlines hfirst
    rw [← conjunction_cons] at hreads
    exact parse_of_reads hreads hdepth

end Conditions.Expression
