import Conditions.Proofs.Expression.Feed
import Conditions.Proofs.Expression.Quoting

/-!
# Cutting a source into tokens

The tokens of a source are the one row of its slices, each of the right kind, that leaves nothing
but blanks between them. There is none exactly if a literal on the way has a quote in it that is
not closed.
-/

set_option autoImplicit false

namespace Conditions.Expression
open Text (isBlank)

def Gap (source : Text) (i j : Nat) : Prop :=
  i ≤ j ∧ ∀ k, i ≤ k → k < j → ∃ c ∈ source[k]?, isBlank c = true

structure Fits (source : Text) (t : Token) : Prop where
  nonempty : t.text ≠ []
  slice : t.text <+: source.drop t.position
  kind : (t.kind, t.text) ∈ symbols ∧
      (∀ s ∈ symbols, s.2 <+: source.drop t.position → s.2.length ≤ t.text.length) ∨
    t.kind = .literal ∧ Takes .outside (source.drop t.position) t.text.length

inductive Covers (source : Text) : Nat → List Token → Nat → Prop where
  | nil {i j : Nat} (gap : Gap source i j) : Covers source i [] j
  | cons {i j : Nat} {t : Token} {ts : List Token} (gap : Gap source i t.position)
      (fits : Fits source t) (rest : Covers source t.stop ts j) : Covers source i (t :: ts) j

def Decomposes (source : Text) (ts : List Token) : Prop :=
  ∃ front, ts = front ++ [⟨.eof, [], source.length⟩] ∧ Covers source 0 front source.length

def Stuck (source : Text) (fault : Fault) : Prop :=
  ∃ front i n mark, Covers source 0 front i ∧ LeftOpen .outside (source.drop i) n mark ∧
    fault = ⟨.unterminated mark, source, i + n, source.drop i⟩

section
variable {source : Text} {i j : Nat}

theorem drop_behind {t after : Text} (h : source.drop i = t ++ after) :
    source.drop (i + t.length) = after := by
  rw [← List.drop_drop, h, List.drop_left]

theorem Gap.of_blanks {blanks rest : Text} (hblanks : ∀ c ∈ blanks, isBlank c = true)
    (hsource : source.drop i = blanks ++ rest) : Gap source i (i + blanks.length) := by
  refine ⟨Nat.le_add_right _ _, fun k hik hkj => ?_⟩
  have hk : k - i < blanks.length := by omega
  refine ⟨blanks[k - i], ?_, hblanks _ (List.getElem_mem hk)⟩
  have hat : source[k]? = (source.drop i)[k - i]? := by
    rw [List.getElem?_drop, Nat.add_sub_cancel' hik]
  rw [hat, hsource, List.getElem?_append_left hk, List.getElem?_eq_getElem hk]
  rfl

theorem Gap.blanks (h : Gap source i j) : ∃ blanks : Text, (∀ c ∈ blanks, isBlank c = true) ∧
    i + blanks.length = j ∧ source.drop i = blanks ++ source.drop j := by
  obtain ⟨hle, hblank⟩ := h
  induction hle with
  | refl => exact ⟨[], by simp, rfl, rfl⟩
  | @step j hij ih =>
    obtain ⟨blanks, hblanks, hlength, hdrop⟩ := ih fun k hik hkj => hblank k hik (by omega)
    obtain ⟨c, hc, hcblank⟩ := hblank j hij (Nat.lt_succ_self j)
    obtain ⟨hj, rfl⟩ := List.getElem?_eq_some_iff.mp hc
    refine ⟨blanks ++ [source[j]], fun c hc => ?_, by simp; omega, ?_⟩
    · rcases List.mem_append.mp hc with hc | hc
      · exact hblanks c hc
      · rw [List.mem_singleton.mp hc]
        exact hcblank
    · rw [hdrop, List.drop_eq_getElem_cons hj, List.append_assoc]
      rfl

theorem Gap.refl (source : Text) (i : Nat) : Gap source i i :=
  ⟨Nat.le_refl i, fun k hik hki => absurd hki (by omega)⟩

theorem Gap.trans {k : Nat} (h : Gap source i j) (h' : Gap source j k) : Gap source i k := by
  refine ⟨Nat.le_trans h.1 h'.1, fun l hil hlk => ?_⟩
  rcases Nat.lt_or_ge l j with hlj | hjl
  · exact h.2 l hil hlj
  · exact h'.2 l hjl hlk

theorem Fits.stop_le {t : Token} (h : Fits source t) :
    t.position < t.stop ∧ t.stop ≤ source.length := by
  have hpos : 0 < t.text.length := List.length_pos_iff.mpr h.nonempty
  have hle := h.slice.length_le
  rw [List.length_drop] at hle
  unfold Token.stop
  omega

namespace Covers

theorem le {ts : List Token} (h : Covers source i ts j) : i ≤ j := by
  induction h with
  | nil gap => exact gap.1
  | cons gap fits _ ih =>
    have := gap.1
    have := fits.stop_le.1
    omega

theorem after {ts : List Token} {k : Nat} (hgap : Gap source i j) (h : Covers source j ts k) :
    Covers source i ts k := by
  cases h with
  | nil gap => exact .nil (hgap.trans gap)
  | cons gap fits rest => exact .cons (hgap.trans gap) fits rest

theorem append {ts us : List Token} {k : Nat} (h : Covers source i ts j)
    (hrest : Covers source j us k) : Covers source i (ts ++ us) k := by
  induction h with
  | nil gap => exact hrest.after gap
  | cons gap fits _ ih => exact .cons gap fits (ih hrest)

theorem positions {ts : List Token} (h : Covers source i ts j) :
    (∀ t ∈ ts, i ≤ t.position ∧ t.position < j) ∧
      (ts.map Token.position).Pairwise (· < ·) := by
  induction h with
  | nil => exact ⟨by simp, .nil⟩
  | @cons i j t ts gap fits rest ih =>
    obtain ⟨hbounds, hpairwise⟩ := ih
    have hstart := gap.1
    have hstop := fits.stop_le.1
    have hrest := rest.le
    refine ⟨fun u hu => ?_, ?_⟩
    · rcases List.mem_cons.mp hu with rfl | hu
      · omega
      · have := hbounds u hu
        omega
    · rw [List.map_cons, List.pairwise_cons]
      refine ⟨fun p hp => ?_, hpairwise⟩
      obtain ⟨u, hu, rfl⟩ := List.mem_map.mp hp
      have := (hbounds u hu).1
      omega

end Covers

end

theorem scan_blanks {position : Nat} {blanks : Text} (h : ∀ c ∈ blanks, isBlank c = true)
    (t : Text) : scan position (blanks ++ t) = scan (position + blanks.length) t := by
  simp only [scan, List.takeWhile_append_of_pos h, List.dropWhile_append_of_pos h,
    List.length_append, Nat.add_assoc]

theorem scan_cons {position : Nat} {c : Char} {t : Text} (h : isBlank c = false) :
    scan position (c :: t) = match symbolAt? (c :: t) with
      | some (kind, symbol) => .ok (⟨kind, symbol, position⟩, (c :: t).drop symbol.length)
      | none => match splitLiteral none position (c :: t) with
        | .ok (front, back) => .ok (⟨.literal, front, position⟩, back)
        | .error opening => .error ⟨opening, c :: t⟩ := by
  cases hs : symbolAt? (c :: t) with
  | some s => simp [scan, h, hs]
  | none => cases hl : splitLiteral none position (c :: t) <;> simp [scan, h, hs, hl]

def lexAt (source : Text) (i : Nat) : Except Fault (List Token) :=
  (Cursor.scanAt source i (source.drop i)).bind Cursor.tokens

section
variable {source : Text} {i j : Nat}

theorem scanAt_gap (h : Gap source i j) :
    Cursor.scanAt source i (source.drop i) = Cursor.scanAt source j (source.drop j) := by
  obtain ⟨blanks, hblanks, rfl, hdrop⟩ := h.blanks
  rw [hdrop, Cursor.scanAt, Cursor.scanAt, scan_blanks hblanks]

theorem lexAt_gap (h : Gap source i j) : lexAt source i = lexAt source j := by
  rw [lexAt, lexAt, scanAt_gap h]

theorem lexAt_end (source : Text) :
    lexAt source source.length = .ok [⟨.eof, [], source.length⟩] := by
  rw [lexAt, List.drop_length]
  exact Cursor.tokens_atEnd rfl

theorem lexAt_token {t : Token} (hk : t.kind ≠ .eof)
    (h : scan t.position (source.drop t.position) = .ok (t, source.drop t.stop)) :
    lexAt source t.position = (lexAt source t.stop).map (t :: ·) := by
  have hstart : Cursor.scanAt source t.position (source.drop t.position) =
      .ok ⟨source, t, source.drop t.stop⟩ := by rw [Cursor.scanAt, h]
  have hat : (Cursor.mk source t (source.drop t.stop)).atEnd = false := by
    simp [Cursor.atEnd, hk]
  have hnext : (Cursor.mk source t (source.drop t.stop)).next =
      Cursor.scanAt source t.stop (source.drop t.stop) := by simp [Cursor.next, hat]
  rw [lexAt, lexAt, hstart]
  change Cursor.tokens _ = _
  cases hn : Cursor.scanAt source t.stop (source.drop t.stop) with
  | ok c => exact Cursor.tokens_next hat (hnext.trans hn)
  | error fault => exact Cursor.tokens_stuck hat (hnext.trans hn)

/-- A blank is no symbol, and neither is the end of the source. -/
theorem starts_of_symbol {t : Text} {s : TokenKind × Text} (hs : s ∈ symbols) (h : s.2 <+: t) :
    ∃ c rest, t = c :: rest ∧ isBlank c = false := by
  have hblankless : ∀ s ∈ symbols, s.2.all (fun c => !isBlank c) = true := by decide
  have hall := hblankless s hs
  obtain ⟨rest, rfl⟩ := h
  cases hfront : s.2 with
  | nil => exact absurd hfront (symbol_ne_nil s hs)
  | cons c front =>
    rw [hfront] at hall
    have hblank : isBlank c = false := by
      simp only [List.all_cons, Bool.and_eq_true, Bool.not_eq_true'] at hall
      exact hall.1
    exact ⟨c, front ++ rest, rfl, hblank⟩

/-- Where a literal begins there is neither a blank nor a symbol. -/
theorem starts_of_not_boundary {c : Char} {t : Text} (h : ¬ Boundary (c :: t)) :
    isBlank c = false ∧ symbolAt? (c :: t) = none := by
  rw [boundary_iff] at h
  cases hblank : isBlank c <;> cases hs : symbolAt? (c :: t) <;> simp_all

theorem Fits.scan {t : Token} (h : Fits source t) :
    scan t.position (source.drop t.position) = .ok (t, source.drop t.stop) := by
  obtain ⟨hne, hslice, ⟨hmem, hlongest⟩ | ⟨hkind, htakes⟩⟩ := h
  · obtain ⟨c, rest, hdrop, hblank⟩ := starts_of_symbol hmem hslice
    have hs : symbolAt? (c :: rest) = some (t.kind, t.text) := by
      rw [← hdrop, symbolAt?_eq_some_iff]
      exact ⟨hmem, hslice, hlongest⟩
    rw [hdrop, scan_cons hblank, hs, Token.stop, ← List.drop_drop, hdrop]
  · obtain ⟨back, hback⟩ := hslice
    have hdrop : source.drop t.stop = back := drop_behind hback.symm
    have hsplit : splitLiteral none t.position (source.drop t.position) = .ok (t.text, back) :=
      ((splitLiteral_outside t.position _).ok t.text back).mpr ⟨hback, htakes⟩
    cases htext : t.text with
    | nil => exact absurd htext hne
    | cons c front =>
      rw [htext] at hback hsplit htakes
      rw [← hback, List.cons_append] at hsplit htakes ⊢
      obtain ⟨hblank, hs⟩ := starts_of_not_boundary ((takes_succ_iff.mp htakes).1 rfl)
      rw [scan_cons hblank, hs, hsplit, hdrop, ← htext, ← hkind]

theorem Fits.lexAt {t : Token} (h : Fits source t) :
    lexAt source t.position = (lexAt source t.stop).map (t :: ·) := by
  refine lexAt_token ?_ h.scan
  rcases h.kind with ⟨hmem, -⟩ | ⟨hkind, -⟩
  · exact symbol_ne_eof _ hmem
  · rw [hkind]
    decide

theorem scanAt_leftOpen {n : Nat} {mark : Char} (h : LeftOpen .outside (source.drop i) n mark) :
    Cursor.scanAt source i (source.drop i) =
      .error ⟨.unterminated mark, source, i + n, source.drop i⟩ := by
  have hsplit : splitLiteral none i (source.drop i) = .error ⟨mark, i + n⟩ :=
    ((splitLiteral_outside i _).error _).mpr (.inr ⟨n, rfl, h⟩)
  have hscan : Expression.scan i (source.drop i) = .error ⟨⟨mark, i + n⟩, source.drop i⟩ := by
    cases hdrop : source.drop i with
    | nil =>
      rw [hdrop] at h
      cases h.opens
    | cons c rest =>
      rw [hdrop] at h hsplit
      obtain ⟨hblank, hs⟩ := starts_of_not_boundary h.starts
      rw [scan_cons hblank, hs, hsplit]
  rw [Cursor.scanAt, hscan]

theorem lexAt_leftOpen {n : Nat} {mark : Char} (h : LeftOpen .outside (source.drop i) n mark) :
    lexAt source i = .error ⟨.unterminated mark, source, i + n, source.drop i⟩ := by
  rw [lexAt, scanAt_leftOpen h]
  rfl

theorem Covers.lexAt {ts : List Token} (h : Covers source i ts j) :
    lexAt source i = (lexAt source j).map (ts ++ ·) := by
  induction h with
  | @nil i j gap =>
    rw [lexAt_gap gap]
    cases Expression.lexAt source j <;> rfl
  | @cons i j t ts gap fits _ ih =>
    rw [lexAt_gap gap, fits.lexAt, ih]
    cases Expression.lexAt source j <;> rfl

theorem split_blanks (t : Text) : ∃ blanks body, t = blanks ++ body ∧
    (∀ c ∈ blanks, isBlank c = true) ∧ ∀ c ∈ body.head?, isBlank c = false := by
  refine ⟨t.takeWhile isBlank, t.dropWhile isBlank, List.takeWhile_append_dropWhile.symm,
    List.all_eq_true.mp List.all_takeWhile, fun c hc => ?_⟩
  have hfirst := List.head?_dropWhile_not isBlank t
  rw [Option.mem_def.mp hc] at hfirst
  simpa using hfirst

/-- What is not blank begins a token, or a literal that is not closed. -/
theorem token_or_leftOpen {c : Char} {rest : Text} (hsource : source.drop j = c :: rest)
    (hblank : isBlank c = false) : (∃ t, t.position = j ∧ Fits source t) ∨
      ∃ n mark, LeftOpen .outside (source.drop j) n mark := by
  rw [hsource]
  cases hs : symbolAt? (c :: rest) with
  | some s =>
    obtain ⟨hmem, hslice, hlongest⟩ := symbolAt?_eq_some_iff.mp hs
    rw [← hsource] at hslice hlongest
    exact .inl ⟨⟨s.1, s.2, j⟩, rfl, symbol_ne_nil s hmem, hslice, .inl ⟨hmem, hlongest⟩⟩
  | none =>
    have hfirst : ¬ Boundary (c :: rest) := by simp [boundary_iff, hblank, hs]
    have hsplits := splitLiteral_outside j (c :: rest)
    cases hr : splitLiteral none j (c :: rest) with
    | ok split =>
      obtain ⟨happend, htakes⟩ := (hsplits.ok split.1 split.2).mp hr
      left
      refine ⟨⟨.literal, split.1, j⟩, rfl, ?_, ?_, .inr ⟨rfl, ?_⟩⟩
      · intro hnil
        change split.1 = [] at hnil
        rw [hnil] at htakes
        exact hfirst ((takes_zero_iff.mp htakes).2.resolve_left (List.cons_ne_nil c rest))
      · exact ⟨split.2, happend.trans hsource.symm⟩
      · rwa [hsource]
    | error o =>
      obtain ⟨n, -, hopen⟩ := stillOpen_outside_iff.mp ((hsplits.error o).mp hr)
      exact .inr ⟨n, o.mark, hopen⟩

/-- From every index there is a gap, and behind it the end or something that is not blank. -/
theorem gap_total (hi : i ≤ source.length) : ∃ j, Gap source i j ∧
    (j = source.length ∨ ∃ c rest, source.drop j = c :: rest ∧ isBlank c = false) := by
  obtain ⟨blanks, body, hsource, hblanks, hhead⟩ := split_blanks (source.drop i)
  have hbody := drop_behind hsource
  have hle : i + blanks.length ≤ source.length := by
    have := congrArg List.length hsource
    rw [List.length_append, List.length_drop] at this
    omega
  refine ⟨i + blanks.length, .of_blanks hblanks hsource, ?_⟩
  cases body with
  | nil => exact .inl (Nat.le_antisymm hle (List.drop_eq_nil_iff.mp hbody))
  | cons c rest => exact .inr ⟨c, rest, hbody, hhead c rfl⟩

/-- Tokens go on to the end, or up to a literal that is not closed. -/
theorem covers_total (hi : i ≤ source.length) : ∃ ts j, Covers source i ts j ∧
    (j = source.length ∨ ∃ n mark, LeftOpen .outside (source.drop j) n mark) := by
  induction hlength : source.length - i using Nat.strongRecOn generalizing i with
  | ind length ih =>
    obtain ⟨j, hgap, hend | ⟨c, rest, hsource, hblank⟩⟩ := gap_total hi
    · exact ⟨[], j, .nil hgap, .inl hend⟩
    · obtain ⟨t, rfl, hfits⟩ | hopen := token_or_leftOpen hsource hblank
      · have hstart := hgap.1
        obtain ⟨hlt, hstop⟩ := hfits.stop_le
        obtain ⟨ts, k, hcovers, hcase⟩ := ih (source.length - t.stop) (by omega) hstop rfl
        exact ⟨t :: ts, k, .cons hgap hfits hcovers, hcase⟩
      · exact ⟨[], j, .nil hgap, .inr hopen⟩

end

theorem tokens_of_covers {source : Text} {front : List Token}
    (h : Covers source 0 front source.length) :
    tokens source = .ok (front ++ [⟨.eof, [], source.length⟩]) := by
  change lexAt source 0 = _
  rw [h.lexAt, lexAt_end]
  rfl

theorem tokens_of_stuck {source : Text} {fault : Fault} (h : Stuck source fault) :
    tokens source = .error fault := by
  obtain ⟨front, i, n, mark, hcovers, hopen, rfl⟩ := h
  change lexAt source 0 = _
  rw [hcovers.lexAt, lexAt_leftOpen hopen]
  rfl

/-- A source is cut into the one row of tokens that it decomposes into; their positions increase.
It has no tokens exactly if it is stuck at a quote. -/
theorem tokens_iff_decomposes (source : Text) :
    (∀ ts, tokens source = .ok ts ↔ Decomposes source ts) ∧
    (∀ ts, Decomposes source ts → (ts.map Token.position).Pairwise (· < ·)) ∧
    (∀ fault, tokens source = .error fault ↔ Stuck source fault) := by
  obtain ⟨front, j, hcovers, hend⟩ := covers_total (Nat.zero_le source.length)
  refine ⟨fun ts => ⟨fun h => ?_, ?_⟩, ?_, fun fault => ⟨fun h => ?_, tokens_of_stuck⟩⟩
  · rcases hend with rfl | ⟨n, mark, hopen⟩
    · rw [tokens_of_covers hcovers, Except.ok.injEq] at h
      exact ⟨front, h.symm, hcovers⟩
    · rw [tokens_of_stuck ⟨front, j, n, mark, hcovers, hopen, rfl⟩] at h
      cases h
  · rintro ⟨front, rfl, hcovers⟩
    exact tokens_of_covers hcovers
  · rintro ts ⟨front, rfl, hcovers⟩
    obtain ⟨hbounds, hpairwise⟩ := hcovers.positions
    rw [List.map_append, List.pairwise_append]
    refine ⟨hpairwise, List.pairwise_singleton _ _, fun p hp q hq => ?_⟩
    obtain ⟨t, ht, rfl⟩ := List.mem_map.mp hp
    cases List.mem_singleton.mp hq
    exact (hbounds t ht).2
  · rcases hend with rfl | ⟨n, mark, hopen⟩
    · rw [tokens_of_covers hcovers] at h
      cases h
    · rw [tokens_of_stuck ⟨front, j, n, mark, hcovers, hopen, rfl⟩, Except.error.injEq] at h
      exact ⟨front, j, n, mark, hcovers, hopen, h.symm⟩

end Conditions.Expression
