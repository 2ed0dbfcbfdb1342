import Conditions.Proofs.Expression.Advancing

/-!
# Quotes around a whole literal

Where a literal ends is told by one reading of its quotes, and what it stands for by another. They
find the same closing quote: a literal loses its quotes exactly if the quote at its front is open up
to the one at its end, and every backslash between them then has a character to stand in front of.
-/

set_option autoImplicit false

namespace Conditions.Expression

def resolved : Text → Text
  | '\\' :: c :: rest => c :: resolved rest
  | c :: rest => c :: resolved rest
  | [] => []

def paired : Text → Bool
  | [] => true
  | ['\\'] => false
  | '\\' :: _ :: rest => paired rest
  | _ :: rest => paired rest

theorem resolved_length_le (t : Text) : (resolved t).length ≤ t.length := by
  fun_induction resolved t with
  | case1 c rest ih => simp only [List.length_cons]; omega
  | case2 c rest _ ih => simpa using ih
  | case3 => exact Nat.le_refl _

theorem Quoting.run_append (q : Quoting) (t u : Text) : q.run (t ++ u) = (q.run t).run u :=
  List.foldl_append

theorem Never.of_append {q : Quoting} {t u : Text} (h : Never q (t ++ u)) : Never q t := by
  intro n hn
  have hat := h n (by rw [List.length_append]; omega)
  rwa [List.take_append_of_le_length hn] at hat

theorem not_never_outside (t : Text) : ¬ Never .outside t :=
  fun h => h 0 (Nat.zero_le _) rfl

theorem never_pair_iff {mark c : Char} {t : Text} :
    Never (.inside mark) ('\\' :: c :: t) ↔ Never (.inside mark) t := by
  rw [never_cons_iff, never_cons_iff]
  simp [Quoting.step]

theorem never_single_iff {mark c : Char} {t : Text} (hmark : mark ≠ '\\')
    (hc : c = '\\' → t = []) :
    Never (.inside mark) (c :: t) ↔ c ≠ mark ∧ Never (.inside mark) t := by
  rw [never_cons_iff]
  by_cases hback : c = '\\'
  · subst hback
    rw [hc rfl]
    simp [Quoting.step, Never, Quoting.run, hmark.symm]
  · by_cases hclose : c = mark
    · subst hclose
      simp [Quoting.step, hback, not_never_outside]
    · simp [Quoting.step, hback, hclose]

/-- A reader is then right behind a backslash exactly if this one is left over. -/
theorem run_of_never {mark : Char} (hmark : mark ≠ '\\') {t : Text}
    (h : Never (.inside mark) t) :
    Quoting.run (.inside mark) t = if paired t then .inside mark else .escaped mark := by
  fun_induction paired t with
  | case1 => rfl
  | case2 => rfl
  | case3 c rest ih => exact ih (never_pair_iff.mp h)
  | case4 c rest hlone hpair ih =>
    have hback : c ≠ '\\' := by
      rintro rfl
      cases rest with
      | nil => exact hlone rfl rfl
      | cons d rest => exact hpair d rest rfl rfl
    obtain ⟨hclose, hrest⟩ := (never_single_iff hmark fun h => absurd h hback).mp h
    have hstep : (Quoting.inside mark).step c = .inside mark := by
      simp [Quoting.step, hback, hclose]
    change Quoting.run ((Quoting.inside mark).step c) rest = _
    rw [hstep]
    exact ih hrest

theorem unescape?_of_never {mark : Char} (hmark : mark ≠ '\\') {body : Text}
    (h : Never (.inside mark) body) : unescape? mark (body ++ [mark]) = some (resolved body) := by
  fun_induction resolved body with
  | case1 c rest ih =>
    have hrest := ih (never_pair_iff.mp h)
    rw [List.cons_append, List.cons_append]
    cases hback : rest ++ [mark] with
    | nil => simp at hback
    | cons d back =>
      rw [hback] at hrest
      rw [unescape?, hrest]
      rfl
  | case2 c rest hsingle ih =>
    have hlast : c = '\\' → rest = [] := by
      intro hc
      cases rest with
      | nil => rfl
      | cons d rest => exact absurd rfl (hsingle d rest hc)
    obtain ⟨hclose, hnever⟩ := (never_single_iff hmark hlast).mp h
    have hrest := ih hnever
    rw [List.cons_append]
    cases hback : rest ++ [mark] with
    | nil => simp at hback
    | cons d back =>
      rw [hback] at hrest
      rw [unescape?, if_neg hclose, hrest]
      · rfl
      · rintro e back' hc rfl
        rw [hlast hc] at hback
        cases hback
  | case3 => simp [unescape?]

theorem never_of_unescape? {mark : Char} (hmark : mark ≠ '\\') {t u : Text}
    (h : unescape? mark t = some u) : ∃ body, t = body ++ [mark] ∧ Never (.inside mark) body := by
  fun_induction unescape? mark t generalizing u with
  | case1 => cases h
  | case2 => exact ⟨[], rfl, by simp [Never, Quoting.run]⟩
  | case3 => cases h
  | case4 c d rest ih =>
    obtain ⟨u, hu, -⟩ := Option.map_eq_some_iff.mp h
    obtain ⟨body, hbody, hnever⟩ := ih hu
    exact ⟨'\\' :: c :: body, by rw [hbody]; rfl, never_pair_iff.mpr hnever⟩
  | case5 => cases h
  | case6 c d rest hsingle hclose ih =>
    obtain ⟨u, hu, -⟩ := Option.map_eq_some_iff.mp h
    obtain ⟨body, hbody, hnever⟩ := ih hu
    have hlast : c = '\\' → body = [] := by
      intro hc
      cases rest with
      | nil => simpa using congrArg List.length hbody
      | cons e rest => exact absurd rfl (hsingle e rest hc)
    exact ⟨c :: body, by rw [hbody]; rfl, (never_single_iff hmark hlast).mpr ⟨hclose, hnever⟩⟩

structure QuotedWhole (t : Text) : Prop where
  opens : ∃ c ∈ t.head?, isQuote c = true
  inside : ∀ n, 0 < n → n < t.length → Quoting.outside.run (t.take n) ≠ .outside
  closes : Quoting.outside.run t = .outside

def KeepsBackslash (t : Text) : Prop := ∃ mark front, isQuote mark = true ∧
  t = mark :: (front ++ ['\\', mark]) ∧ paired front = true ∧
    unquote t = resolved front ++ ['\\']

example : KeepsBackslash ['"', 'a', '\\', '"'] := ⟨'"', ['a'], rfl, rfl, rfl, rfl⟩

section
variable {mark : Char} {t : Text}

theorem ne_backslash (hquote : isQuote mark = true) : mark ≠ '\\' := by
  rintro rfl
  cases hquote

theorem run_quote (hquote : isQuote mark = true) (t : Text) :
    Quoting.outside.run (mark :: t) = Quoting.run (.inside mark) t := by
  change Quoting.run (Quoting.outside.step mark) t = _
  rw [Quoting.step, if_pos hquote]

theorem unquote_quote (hquote : isQuote mark = true) (t : Text) :
    unquote (mark :: t) = (unescape? mark t).getD (mark :: t) := if_pos hquote

theorem QuotedWhole.split (h : QuotedWhole t) : ∃ mark body, isQuote mark = true ∧
    t = mark :: (body ++ [mark]) ∧ Never (.inside mark) body ∧ paired body = true := by
  obtain ⟨⟨mark, hhead, hquote⟩, hinside, hcloses⟩ := h
  obtain ⟨rest, rfl⟩ := List.head?_eq_some_iff.mp (Option.mem_def.mp hhead)
  have hmark := ne_backslash hquote
  rw [run_quote hquote] at hcloses
  rcases List.eq_nil_or_concat rest with rfl | ⟨body, last, rfl⟩
  · cases hcloses
  · rw [List.concat_eq_append] at *
    have hnever : Never (.inside mark) body := by
      intro n hn
      have houtside := hinside (n + 1) (Nat.succ_pos n) (by simpa using Nat.lt_succ_of_le hn)
      rwa [List.take_succ_cons, run_quote hquote, List.take_append_of_le_length hn] at houtside
    -- only a reader inside the quotes is outside behind the last character, and only by the mark
    rw [Quoting.run_append, run_of_never hmark hnever] at hcloses
    cases hpaired : paired body with
    | false =>
      rw [hpaired] at hcloses
      cases hcloses
    | true =>
      rw [hpaired] at hcloses
      have hlast : last = mark := by
        by_contra hne
        by_cases hback : last = '\\' <;> simp [Quoting.run, Quoting.step, hback, hne] at hcloses
      exact ⟨mark, body, hquote, by rw [hlast], hnever, hpaired⟩

theorem QuotedWhole.unquote (h : QuotedWhole t) : ∃ mark body, isQuote mark = true ∧
    t = mark :: (body ++ [mark]) ∧ paired body = true ∧ unquote t = resolved body := by
  obtain ⟨mark, body, hquote, rfl, hnever, hpaired⟩ := h.split
  refine ⟨mark, body, hquote, rfl, hpaired, ?_⟩
  rw [unquote_quote hquote, unescape?_of_never (ne_backslash hquote) hnever]
  rfl

/-- A text that ends outside quotes loses something only if it is quoted as a whole. -/
theorem unquote_of_not_quotedWhole (houtside : Quoting.outside.run t = .outside)
    (h : ¬ QuotedWhole t) : unquote t = t := by
  cases t with
  | nil => rfl
  | cons mark rest =>
    by_cases hquote : isQuote mark = true
    · rw [unquote_quote hquote]
      cases hrest : unescape? mark rest with
      | none => rfl
      | some u =>
        obtain ⟨body, rfl, hnever⟩ := never_of_unescape? (ne_backslash hquote) hrest
        refine absurd ⟨⟨mark, rfl, hquote⟩, fun n hpos hn => ?_, houtside⟩ h
        obtain ⟨n, rfl⟩ := Nat.exists_eq_succ_of_ne_zero hpos.ne'
        have hle : n ≤ body.length := by simpa [Nat.lt_succ_iff] using hn
        rw [List.take_succ_cons, run_quote hquote, List.take_append_of_le_length hle]
        exact hnever n hle
    · exact if_neg hquote

/-- Where a backslash would be left over, the quote behind it is not the closing one. -/
theorem KeepsBackslash.leaves_open (h : KeepsBackslash t) :
    ∃ mark, Quoting.outside.run t = .inside mark := by
  obtain ⟨mark, front, hquote, rfl, hpaired, hkept⟩ := h
  have hmark := ne_backslash hquote
  rw [unquote_quote hquote] at hkept
  cases hrest : unescape? mark (front ++ ['\\', mark]) with
  | none =>
    -- the literal as it is written is too long
    rw [hrest] at hkept
    have hlength := congrArg List.length hkept
    have hle := resolved_length_le front
    simp only [Option.getD_none, List.length_cons, List.length_append, List.length_nil] at hlength
    omega
  | some u =>
    obtain ⟨body, hbody, hnever⟩ := never_of_unescape? hmark hrest
    have hfront : front ++ ['\\'] = body := by
      refine List.append_inj_left' ?_ (rfl : [mark].length = [mark].length)
      rw [← hbody, List.append_assoc]
      rfl
    rw [← hfront] at hnever
    have hinside := run_of_never hmark hnever.of_append
    rw [hpaired] at hinside
    refine ⟨mark, ?_⟩
    rw [run_quote hquote, Quoting.run_append, hinside]
    simp [Quoting.run, Quoting.step]

end

def Produced (source : Text) (t : Token) : Prop :=
  ∃ z n, Tokenizer.start source = .ok z ∧ (z.after n).current = t

theorem Produced.fits {source : Text} {t : Token} (h : Produced source t) (hkind : t.kind ≠ .eof) :
    Fits source t := by
  obtain ⟨z, n, hstart, rfl⟩ := h
  obtain ⟨ts, stop, hscanned⟩ := scanned_total source
  obtain ⟨-, c, last, hfollows, hwalks, hlast, -⟩ := Tokenizer.start_walks hstart hscanned
  have hmem := List.mem_of_getElem? (hfollows.shows_after hwalks hlast n).1
  rcases hscanned.fits _ hmem with hend | hfits
  · exact absurd (congrArg Token.kind hend) hkind
  · exact hfits

theorem Fits.outside {source : Text} {t : Token} (h : Fits source t) (hkind : t.kind = .literal) :
    Quoting.outside.run t.text = .outside := by
  rcases h.kind with ⟨hmem, -⟩ | ⟨-, htakes⟩
  · have hsymbols : ∀ s ∈ symbols, s.1 ≠ .literal := by decide
    exact absurd hkind (hsymbols _ hmem)
  · rw [List.prefix_iff_eq_take.mp h.slice]
    exact htakes.outside

/-- A literal of a source that is quoted as a whole stands for what is between its quotes, each pair
of a backslash and a character resolved; every other one stands for itself, with its quotes and
backslashes. No backslash is left over in front of a last quote. -/
theorem unquote_follows_quoting {source : Text} {t : Token} (h : Produced source t)
    (hkind : t.kind = .literal) :
    (QuotedWhole t.text → ∃ mark body, isQuote mark = true ∧ t.text = mark :: (body ++ [mark]) ∧
      paired body = true ∧ unquote t.text = resolved body) ∧
    (¬ QuotedWhole t.text → unquote t.text = t.text) ∧
    ¬ KeepsBackslash t.text := by
  have hfits := h.fits (by rw [hkind]; decide)
  have houtside := hfits.outside hkind
  refine ⟨QuotedWhole.unquote, unquote_of_not_quotedWhole houtside, fun hkeeps => ?_⟩
  obtain ⟨mark, hopen⟩ := hkeeps.leaves_open
  rw [houtside] at hopen
  cases hopen

/-- A literal with an escaped quote in it, and one whose quotes end in the middle; behind them a
quote is not closed. -/
theorem unquote_follows_two_literals :
    let source := "'a\\'b' == 'c'd \"".toList
    let whole : Token := ⟨.literal, "'a\\'b'".toList, 0⟩
    let part : Token := ⟨.literal, "'c'd".toList, 10⟩
    Produced source whole ∧ Produced source part ∧
      QuotedWhole whole.text ∧ (∃ mark body, isQuote mark = true ∧
        whole.text = mark :: (body ++ [mark]) ∧ paired body = true ∧
        unquote whole.text = resolved body) ∧ unquote whole.text = ['a', '\'', 'b'] ∧
      ¬ QuotedWhole part.text ∧ unquote part.text = part.text := by
  intro source whole part
  have hstart : Tokenizer.start source = .ok ⟨source, 6, whole⟩ := by decide +kernel
  have hwhole : Produced source whole := ⟨_, 0, hstart, rfl⟩
  have hpart : Produced source part := ⟨_, 2, hstart, by decide +kernel⟩
  have hquoted : QuotedWhole whole.text := by
    have hinside : ∀ n < 6, n = 0 ∨ Quoting.outside.run (whole.text.take n) ≠ .outside := by decide
    refine ⟨⟨'\'', rfl, rfl⟩, fun n hpos hn => ?_, rfl⟩
    exact (hinside n hn).resolve_left hpos.ne'
  have hnot : ¬ QuotedWhole part.text := fun h => h.inside 3 (by decide) (by decide) rfl
  exact ⟨hwhole, hpart, hquoted, (unquote_follows_quoting hwhole rfl).1 hquoted,
    rfl, hnot, (unquote_follows_quoting hpart rfl).2.1 hnot⟩

end Conditions.Expression
