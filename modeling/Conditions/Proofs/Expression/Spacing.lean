import Conditions.Proofs.Expression.Embedding
import Conditions.Proofs.Expression.FirstFault

/-!
# Blanks between tokens

A token that fits where it stands fits wherever blanks or the end follow it, so a row of tokens can
be written again with other blanks around them. A parser asks for the kinds and the texts of tokens
only: the row is the same condition as before, or is told the same fault at another place.
-/

set_option autoImplicit false

namespace Conditions.Expression
open Text (isBlank)

theorem Boundary.append {t : Text} (h : Boundary t) (after : Text) : Boundary (t ++ after) := by
  rcases h with ⟨c, hc, hblank⟩ | ⟨s, hs, hfits⟩
  · obtain ⟨rest, rfl⟩ := List.head?_eq_some_iff.mp (Option.mem_def.mp hc)
    exact .inl ⟨c, rfl, hblank⟩
  · exact .inr ⟨s, hs, hfits.trans (List.prefix_append t after)⟩

/-- What a literal takes of a text it takes as well where the text ends behind it. -/
theorem Takes.alone {q : Quoting} {t : Text} {n : Nat} (h : Takes q t n) :
    Takes q (t.take n) n := by
  have hlength : (t.take n).length = n := List.length_take_of_le h.bound
  have hbefore : ∀ k ≤ n, (t.take n).take k = t.take k := by
    intro k hk
    rw [List.take_take, Nat.min_eq_left hk]
  refine ⟨hlength.ge, fun k hk houtside hboundary => ?_, ?_, .inl ?_⟩
  · rw [hbefore k hk.le] at houtside
    refine h.unbroken k hk houtside ?_
    have hsplit : t.drop k = (t.take n).drop k ++ t.drop n := by
      rw [← List.drop_append_of_le_length (by omega), List.take_append_drop]
    rw [hsplit]
    exact hboundary.append _
  · rw [hbefore n (Nat.le_refl n)]
    exact h.outside
  · rw [List.drop_eq_nil_iff, hlength]

/-- Whether a token fits is told by its word and by the text from its position on. -/
theorem Fits.congr {source source' : Text} {t t' : Token} (h : Fits source t)
    (hkind : t'.kind = t.kind) (htext : t'.text = t.text)
    (hdrop : source'.drop t'.position = source.drop t.position) : Fits source' t' := by
  obtain ⟨hnonempty, hslice, hcases⟩ := h
  rw [← hkind, ← htext, ← hdrop] at hcases
  rw [← htext] at hnonempty hslice
  rw [← hdrop] at hslice
  exact ⟨hnonempty, hslice, hcases⟩

theorem Fits.alone {source : Text} {t : Token} (h : Fits source t) :
    Fits t.text { t with position := 0 } := by
  refine ⟨h.nonempty, List.prefix_rfl, ?_⟩
  rcases h.kind with ⟨hmem, hlongest⟩ | ⟨hkind, htakes⟩
  · exact .inl ⟨hmem, fun s hs hfits => hlongest s hs (hfits.trans h.slice)⟩
  · refine .inr ⟨hkind, ?_⟩
    have hown := htakes.alone
    rwa [← List.prefix_iff_eq_take.mp h.slice] at hown

def Ceases (t : Text) : Prop := ∀ c ∈ t.head?, isBlank c = true

theorem separates_blank {c : Char} (hc : isBlank c = true) : Separates c where
  alone s hs hmem := by
    have hblankless : ∀ s ∈ symbols, s.2.all (fun d => !isBlank d) = true := by decide
    have hnot := List.all_eq_true.mp (hblankless s hs) c hmem
    simp [hc] at hnot
  boundary _ := .inl ⟨c, rfl, hc⟩

/-- A token fits wherever its text stands in front of a blank or of the end. -/
theorem Fits.placed {source source' after : Text} {t : Token} {i : Nat} (h : Fits source t)
    (hsource : source'.drop i = t.text ++ after) (hafter : Ceases after) :
    Fits source' { t with position := i } := by
  cases after with
  | nil =>
    rw [List.append_nil] at hsource
    exact h.alone.congr rfl rfl hsource
  | cons c after => exact h.alone.within (separates_blank (hafter c rfl)) hsource

def spread (gap : Nat → Text) : List Token → Text
  | [] => gap 0
  | t :: ts => gap 0 ++ (t.text ++ spread (fun k => gap (k + 1)) ts)

def Token.word (t : Token) : TokenKind × Text := (t.kind, t.text)

structure Spacing (gap : Nat → Text) (n : Nat) : Prop where
  blank : ∀ k ≤ n, ∀ c ∈ gap k, isBlank c = true
  inner : ∀ k, 0 < k → k < n → gap k ≠ []

namespace Spacing

variable {gap : Nat → Text} {n : Nat}

theorem next (h : Spacing gap (n + 1)) : Spacing (fun k => gap (k + 1)) n where
  blank k hk := h.blank (k + 1) (Nat.succ_le_succ hk)
  inner k _ hkn := h.inner (k + 1) (Nat.succ_pos k) (Nat.succ_lt_succ hkn)

/-- Behind the first token there is a blank, or the row has ended. -/
theorem ceases {t : Token} {ts : List Token} (h : Spacing gap (t :: ts).length) :
    Ceases (spread (fun k => gap (k + 1)) ts) := by
  intro c hc
  have hblank : ∀ c ∈ gap 1, isBlank c = true := h.blank 1 (by simp)
  cases ts with
  | nil => exact hblank c (List.mem_of_mem_head? hc)
  | cons u ts =>
    cases hgap : gap 1 with
    | nil => exact absurd hgap (h.inner 1 Nat.one_pos (by simp))
    | cons d rest =>
      rw [spread, Nat.zero_add, hgap, List.cons_append, List.head?_cons, Option.mem_some_iff] at hc
      rw [← hc]
      exact hblank d (by simp [hgap])

end Spacing

theorem Covers.spread {source whole : Text} {ts : List Token} (hfits : ∀ t ∈ ts, Fits source t)
    {gap : Nat → Text} (hgap : Spacing gap ts.length) {i : Nat}
    (hwhole : whole.drop i = spread gap ts) :
    ∃ us, Covers whole i us (i + (Expression.spread gap ts).length) ∧
      us.map Token.word = ts.map Token.word := by
  induction ts generalizing gap i with
  | nil =>
    have hsource : whole.drop i = gap 0 ++ [] := by rw [hwhole, List.append_nil, Expression.spread]
    exact ⟨[], .nil (.of_blanks (hgap.blank 0 (Nat.zero_le _)) hsource), rfl⟩
  | cons t ts ih =>
    rw [Expression.spread] at hwhole
    have htoken := drop_behind hwhole
    have hrest := drop_behind htoken
    obtain ⟨us, hus, hwords⟩ := ih (fun u hu => hfits u (by simp [hu])) hgap.next hrest
    have hfirst := (hfits t (by simp)).placed htoken hgap.ceases
    have hblank : Gap whole i (i + (gap 0).length) :=
      .of_blanks (hgap.blank 0 (Nat.zero_le _)) hwhole
    refine ⟨{ t with position := i + (gap 0).length } :: us, ?_, ?_⟩
    · rw [Expression.spread, List.length_append, List.length_append, ← Nat.add_assoc,
        ← Nat.add_assoc]
      exact .cons hblank hfirst hus
    · rw [List.map_cons, List.map_cons, hwords]
      rfl

def unplaced (answer : Except Fault Condition) : Except (Cause × Text) Condition :=
  answer.mapError fun fault => (fault.cause, fault.token)

theorem State.decision_word (s : State) (depth : Nat) {t t' : Token} (h : t.word = t'.word) :
    s.decision depth t = s.decision depth t' := by
  obtain ⟨kind, text, position⟩ := t
  obtain ⟨kind', text', position'⟩ := t'
  cases h
  rfl

namespace Cursor

variable {c c' : Cursor}

theorem tokens_ne_nil {ts : List Token} (h : c.tokens = .ok ts) : ts ≠ [] := by
  rintro rfl
  cases hc : c.atEnd with
  | true =>
    rw [tokens_atEnd hc] at h
    cases h
  | false =>
    cases hn : c.next with
    | error fault =>
      rw [tokens_stuck hc hn] at h
      cases h
    | ok c' =>
      rw [tokens_next hc hn] at h
      cases ht : c'.tokens <;> rw [ht] at h <;> cases h

def Echoes (c c' : Cursor) : Prop := ∃ ts ts', c.tokens = .ok ts ∧ c'.tokens = .ok ts' ∧
  ts.map Token.word = ts'.map Token.word

theorem Echoes.step (h : Echoes c c') : c.current.word = c'.current.word ∧
    ∃ d d', c.next = .ok d ∧ c'.next = .ok d' ∧ Echoes d d' := by
  obtain ⟨ts, ts', hts, hts', hwords⟩ := h
  obtain ⟨t, us, rfl⟩ := List.exists_cons_of_ne_nil (tokens_ne_nil hts)
  obtain ⟨t', us', rfl⟩ := List.exists_cons_of_ne_nil (tokens_ne_nil hts')
  obtain ⟨hword, hrest⟩ := List.cons_eq_cons.mp hwords
  obtain ⟨rfl, hcase⟩ := tokens_cons hts
  obtain ⟨rfl, hcase'⟩ := tokens_cons hts'
  have hend : c.atEnd = c'.atEnd := congrArg (fun w => w.1 == .eof) hword
  refine ⟨hword, ?_⟩
  rcases hcase with ⟨hc, -⟩ | ⟨hc, d, hd, hus⟩
  · have hc' : c'.atEnd = true := hend ▸ hc
    exact ⟨c, c', by simp [next, hc], by simp [next, hc'], _, _, hts, hts', hwords⟩
  · rcases hcase' with ⟨hc', -⟩ | ⟨-, d', hd', hus'⟩
    · rw [hend, hc'] at hc
      cases hc
    · exact ⟨d, d', hd, hd', us, us', hus, hus', hrest⟩

end Cursor

/-- Alike are the same condition, or faults of one cause that tell the same token. -/
theorem unplaced_cases {a a' : Except Fault Condition} (h : unplaced a = unplaced a') :
    (∃ c, a = .ok c ∧ a' = .ok c) ∨
      ∃ f f', a = .error f ∧ a' = .error f' ∧ f.cause = f'.cause ∧ f.token = f'.token := by
  cases a with
  | ok c =>
    cases a' with
    | ok c' =>
      cases h
      exact .inl ⟨c, rfl, rfl⟩
    | error f' => cases h
  | error f =>
    cases a' with
    | ok c' => cases h
    | error f' =>
      obtain ⟨hcause, htoken⟩ := Prod.ext_iff.mp (Except.error.inj h)
      exact .inr ⟨f, f', rfl, rfl, hcause, htoken⟩

theorem unplaced_fault {t t' : Token} (h : t.word = t'.word) (source source' : Text)
    (cause : Cause) : unplaced (.error (t.fault source cause)) =
      unplaced (.error (t'.fault source' cause)) := by
  have htext : t.text = t'.text := congrArg Prod.snd h
  simp only [unplaced, Except.mapError, Token.fault, htext]

/-- Runs over the same words end alike; if they end well, then in front of the same word. -/
theorem run_echoes {depth : Nat} {c c' : Cursor} {s : State} (h : c.Echoes c') :
    unplaced (run depth c s).answer = unplaced (run depth c' s).answer ∧
      ((∃ condition, (run depth c s).answer = .ok condition) →
        (run depth c s).cursor.current.word = (run depth c' s).cursor.current.word) := by
  induction c, s using run.induct depth generalizing c' with
  | case1 c s condition hd =>
    have hd' := hd
    rw [s.decision_word _ h.step.1] at hd'
    rw [run_accept hd, run_accept hd']
    exact ⟨rfl, fun _ => h.step.1⟩
  | case2 c s cause hd =>
    have hd' := hd
    rw [s.decision_word _ h.step.1] at hd'
    rw [run_refuse hd, run_refuse hd']
    refine ⟨unplaced_fault h.step.1 _ _ _, ?_⟩
    rintro ⟨_, hanswer⟩
    cases hanswer
  | case3 c s cause hd d hn =>
    obtain ⟨hword, d, d', hn, hn', -⟩ := h.step
    have hd' := hd
    rw [s.decision_word _ hword] at hd'
    rw [run_reject hd, run_reject hd', hn, hn']
    refine ⟨unplaced_fault hword _ _ _, ?_⟩
    rintro ⟨_, hanswer⟩
    cases hanswer
  | case5 c s s' hd d hn ih =>
    obtain ⟨hword, e, d', he, hn', hrest⟩ := h.step
    rw [hn, Except.ok.injEq] at he
    subst he
    have hd' := hd
    rw [s.decision_word _ hword] at hd'
    rw [run_shift hd hn, run_shift hd' hn']
    exact ih hrest
  | case4 c s _ _ fault hn | case6 c s _ _ fault hn =>
    obtain ⟨-, d, -, hd, -⟩ := h.step
    rw [hn] at hd
    cases hd

theorem Tokenized.blank_iff {source : Text} {ts : List Token} (h : Tokenized source ts) :
    source.all isBlank = true ↔ ts = [] := by
  constructor
  · intro hblank
    obtain ⟨e, -, htokens⟩ := h
    obtain ⟨e', hend⟩ := tokens_blank hblank
    rw [htokens, Except.ok.injEq, List.append_eq_singleton_iff] at hend
    rcases hend with ⟨hnil, -⟩ | ⟨-, hnil⟩
    · exact hnil
    · cases hnil
  · rintro rfl
    cases h.covers with
    | nil gap =>
      obtain ⟨blanks, hblanks, -, hsource⟩ := gap.blanks
      rw [List.drop_zero, List.drop_length, List.append_nil] at hsource
      rw [hsource]
      exact List.all_eq_true.mpr hblanks

theorem Tokenized.start {source : Text} {ts : List Token} (h : Tokenized source ts) :
    ∃ c, Cursor.start source = .ok c ∧ c.tokens = .ok (ts ++ [⟨.eof, [], source.length⟩]) := by
  have htokens := tokens_of_covers h.covers
  unfold tokens at htokens
  cases hc : Cursor.start source with
  | error fault =>
    rw [hc] at htokens
    cases htokens
  | ok c =>
    rw [hc] at htokens
    exact ⟨c, rfl, htokens⟩

/-- What is parsed of a source is what its run answers, if nothing stands behind it. -/
theorem parse_of_start {source : Text} {c : Cursor} (hblank : source.all isBlank = false)
    (hstart : Cursor.start source = .ok c) :
    parse source = match (run 0 c .initial).answer with
      | .error fault => .error fault
      | .ok condition =>
        let t := (run 0 c .initial).cursor.current
        if t.kind = .eof then .ok condition else .error (t.fault source (.trailing t.text)) := by
  unfold parse
  simp only [hblank, Bool.false_eq_true, if_false, hstart, Parser.condition, Parser.ofCursor, bind,
    Except.bind, pure, Except.pure]
  cases (run 0 c .initial).answer <;> rfl

/-- Sources whose tokens are the same words are parsed alike. -/
theorem unplaced_parse {source source' : Text} {ts ts' : List Token} (h : Tokenized source ts)
    (h' : Tokenized source' ts') (hwords : ts.map Token.word = ts'.map Token.word) :
    unplaced (parse source) = unplaced (parse source') := by
  have hnil : ts = [] ↔ ts' = [] := by
    rw [← List.map_eq_nil_iff (f := Token.word), hwords, List.map_eq_nil_iff]
  have hblanks : source.all isBlank = source'.all isBlank := by
    rw [Bool.eq_iff_iff, h.blank_iff, h'.blank_iff, hnil]
  cases hblank : source.all isBlank with
  | true =>
    unfold parse
    rw [if_pos hblank, if_pos (hblanks ▸ hblank)]
    rfl
  | false =>
    obtain ⟨c, hstart, htokens⟩ := h.start
    obtain ⟨c', hstart', htokens'⟩ := h'.start
    have hechoes : c.Echoes c' := by
      refine ⟨_, _, htokens, htokens', ?_⟩
      rw [List.map_append, List.map_append, hwords]
      rfl
    obtain ⟨hanswer, hend⟩ := @run_echoes 0 c c' .initial hechoes
    rw [parse_of_start hblank hstart, parse_of_start (hblanks ▸ hblank) hstart']
    rcases unplaced_cases hanswer with ⟨condition, ha, ha'⟩ | ⟨fault, fault', ha, ha', -⟩
    · have hword := hend ⟨condition, ha⟩
      have hkind : (run 0 c .initial).cursor.current.kind =
          (run 0 c' .initial).cursor.current.kind := congrArg Prod.fst hword
      have htext : (run 0 c .initial).cursor.current.text =
          (run 0 c' .initial).cursor.current.text := congrArg Prod.snd hword
      simp only [ha, ha', hkind, htext]
      by_cases heof : (run 0 c' .initial).cursor.current.kind = .eof
      · rw [if_pos heof, if_pos heof]
      · rw [if_neg heof, if_neg heof]
        exact unplaced_fault hword source source' _
    · rwa [ha, ha'] at hanswer ⊢

/-- The tokens of a source, written again with other blanks around them, are the same tokens at
other places, and the same condition or the same fault. -/
theorem spacing_immaterial {source : Text} {ts : List Token} (htokens : Tokenized source ts)
    {gap : Nat → Text} (hblank : ∀ k ≤ ts.length, ∀ c ∈ gap k, isBlank c = true)
    (hinner : ∀ k, 0 < k → k < ts.length → gap k ≠ []) :
    (∃ us, tokens (spread gap ts) = .ok (us ++ [⟨.eof, [], (spread gap ts).length⟩]) ∧
      us.map (fun t => (t.kind, t.text)) = ts.map (fun t => (t.kind, t.text))) ∧
    (∀ c, parse (spread gap ts) = .ok c ↔ parse source = .ok c) ∧
    ∀ fault, parse source = .error fault → ∃ fault', parse (spread gap ts) = .error fault' ∧
      fault'.isLexical = fault.isLexical ∧ fault'.message = fault.message ∧
      fault'.token = fault.token := by
  obtain ⟨us, hcovers, hwords⟩ :=
    Covers.spread htokens.covers.fits ⟨hblank, hinner⟩ (List.drop_zero (l := spread gap ts))
  rw [Nat.zero_add] at hcovers
  have hspread := tokens_of_covers hcovers
  have hsame := unplaced_parse htokens ⟨_, rfl, hspread⟩ hwords.symm
  refine ⟨⟨us, hspread, hwords⟩, fun c => ?_, fun fault hfault => ?_⟩
  · rcases unplaced_cases hsame with ⟨c', hc, hc'⟩ | ⟨f, f', hf, hf', -⟩
    · rw [hc, hc']
    · rw [hf, hf']
      constructor <;> intro h <;> cases h
  · rcases unplaced_cases hsame with ⟨c, hc, -⟩ | ⟨f, f', hf, hf', hcause, htoken⟩
    · rw [hc] at hfault
      cases hfault
    · rw [hf, Except.error.injEq] at hfault
      subst hfault
      have hlexical : f'.isLexical = f.isLexical := by rw [Fault.isLexical, Fault.isLexical, hcause]
      have hmessage : f'.message = f.message := by rw [Fault.message, Fault.message, hcause]
      exact ⟨f', hf', hlexical, hmessage, htoken.symm⟩

/-- Tokens that touch each other, with tabs between them. -/
theorem spacing_immaterial_tabs :
    let source := "!x!>>'y z'".toList
    let ts : List Token := [⟨.literal, ['!', 'x'], 0⟩, ⟨.operator, ['!', '>', '>'], 2⟩,
      ⟨.literal, "'y z'".toList, 5⟩]
    let gap : Nat → Text := fun _ => ['\t']
    Tokenized source ts ∧ (∀ k ≤ ts.length, ∀ c ∈ gap k, isBlank c = true) ∧
      (∀ k, 0 < k → k < ts.length → gap k ≠ []) ∧
      parse source = .ok (.atom ⟨['!', 'x'], .lacks, ['y', ' ', 'z']⟩) ∧
      parse (spread gap ts) = .ok (.atom ⟨['!', 'x'], .lacks, ['y', ' ', 'z']⟩) := by
  intro source ts gap
  have htokens : Tokenized source ts := ⟨⟨.eof, [], 10⟩, rfl, by decide +kernel⟩
  have hblank : ∀ k ≤ ts.length, ∀ c ∈ gap k, isBlank c = true := by
    intro k _ c hc
    rw [List.mem_singleton.mp hc]
    decide
  have hinner : ∀ k, 0 < k → k < ts.length → gap k ≠ [] := fun _ _ _ => List.cons_ne_nil _ _
  have hparse : parse source = .ok (.atom ⟨['!', 'x'], .lacks, ['y', ' ', 'z']⟩) := by
    decide +kernel
  exact ⟨htokens, hblank, hinner, hparse,
    ((spacing_immaterial htokens hblank hinner).2.1 _).mpr hparse⟩

end Conditions.Expression
