import Conditions.Proofs.Expression.Decomposition
import Conditions.Proofs.Expression.Recognition

/-!
# Writing conditions

Every condition can be written so that it reads back as itself: operands as single-quoted literals,
symbols between spaces, and parentheses where precedence or the side would be lost without them.
-/

set_option autoImplicit false

namespace Conditions.Expression

def escape (t : Text) : Text :=
  t.flatMap fun c => if c = '\\' ∨ c = '\'' then ['\\', c] else [c]

def literal (t : Text) : Text := '\'' :: (escape t ++ ['\''])

def spaced (left symbol right : Text) : Text := left ++ ' ' :: (symbol ++ ' ' :: right)

def enclosed (group : Bool) (t : Text) : Text := if group then '(' :: (t ++ [')']) else t

namespace Condition

def grouped (parent : TokenKind) (right : Bool) : Condition → Bool
  | .atom _ => false
  | .and _ _ => parent == .and && right
  | .or _ _ => parent == .and || right

def written : Condition → Text
  | .atom c => spaced (literal c.left) c.comparator.symbol (literal c.right)
  | .and l r => spaced (enclosed (grouped .and false l) (written l)) ['&', '&']
      (enclosed (grouped .and true r) (written r))
  | .or l r => spaced (enclosed (grouped .or false l) (written l)) ['|', '|']
      (enclosed (grouped .or true r) (written r))

def nesting : Condition → Nat
  | .atom _ => 0
  | .and l r => max (nesting l + (grouped .and false l).toNat)
      (nesting r + (grouped .and true r).toNat)
  | .or l r => max (nesting l + (grouped .or false l).toNat)
      (nesting r + (grouped .or true r).toNat)

def rule : Condition → Rule
  | .atom _ => .primary
  | .and _ _ => .conjunction
  | .or _ _ => .expression

end Condition

theorem escape_cons (c : Char) (t : Text) :
    escape (c :: t) = (if c = '\\' ∨ c = '\'' then ['\\', c] else [c]) ++ escape t := by
  simp [escape]

theorem unescape?_escape (t : Text) : unescape? '\'' (escape t ++ ['\'']) = some t := by
  induction t with
  | nil => rfl
  | cons c t ih =>
    rw [escape_cons]
    cases hrest : escape t ++ ['\''] with
    | nil => simp at hrest
    | cons d rest =>
      rw [hrest] at ih
      split
      · simp [hrest, unescape?, ih]
      · rename_i hplain
        rw [not_or] at hplain
        simp [hrest, unescape?, ih, hplain]

theorem unquote_literal (t : Text) : unquote (literal t) = t := by
  simp [literal, unquote, isQuote, unescape?_escape]

theorem takes_escape (t : Text) {after : Text} (h : after = [] ∨ Boundary after) :
    Takes (.inside '\'') (escape t ++ '\'' :: after) (escape t ++ ['\'']).length := by
  induction t with
  | nil =>
    refine takes_succ_iff.mpr ⟨by simp, ?_⟩
    exact takes_zero_iff.mpr ⟨rfl, h⟩
  | cons c t ih =>
    rw [escape_cons]
    split
    · exact takes_succ_iff.mpr ⟨by simp, takes_succ_iff.mpr ⟨by simp [Quoting.step], ih⟩⟩
    · rename_i hplain
      rw [not_or] at hplain
      refine takes_succ_iff.mpr ⟨by simp, ?_⟩
      simpa [Quoting.step, hplain] using ih

theorem takes_literal (t : Text) {after : Text} (h : after = [] ∨ Boundary after) :
    Takes .outside (literal t ++ after) (literal t).length := by
  have hrest : literal t ++ after = '\'' :: (escape t ++ '\'' :: after) := by simp [literal]
  rw [hrest]
  exact takes_succ_iff.mpr ⟨fun _ => quote_not_boundary rfl _, takes_escape t h⟩

theorem boundary_space (t : Text) : Boundary (' ' :: t) := .inl ⟨' ', rfl, by decide⟩

section
variable {source rest : Text} {i : Nat} {s : TokenKind × Text}

/-- A symbol with a space behind it is the longest one there, as no symbol has a space in it. -/
theorem fits_spaced (hs : s ∈ symbols) (h : source.drop i = s.2 ++ ' ' :: rest) :
    Fits source ⟨s.1, s.2, i⟩ := by
  refine ⟨symbol_ne_nil s hs, ⟨_, h.symm⟩, .inl ⟨hs, fun s' hs' hfits => ?_⟩⟩
  refine Nat.le_of_not_lt fun hlt => ?_
  change s.2.length < s'.2.length at hlt
  change s'.2 <+: source.drop i at hfits
  have hspace := List.prefix_iff_getElem?.mp hfits s.2.length hlt
  rw [h, List.getElem?_append_right (Nat.le_refl _), Nat.sub_self] at hspace
  have hspaceless : ∀ s ∈ symbols, ' ' ∉ s.2 := by decide
  refine hspaceless s' hs' ?_
  rw [Option.some.inj hspace]
  exact List.getElem_mem hlt

theorem fits_alone (hs : s ∈ symbols) (halone : ∀ s' ∈ symbols, s.2 <+: s'.2 → s'.2 = s.2)
    (h : source.drop i = s.2 ++ rest) : Fits source ⟨s.1, s.2, i⟩ := by
  refine ⟨symbol_ne_nil s hs, ⟨_, h.symm⟩, .inl ⟨hs, fun s' hs' hfits => ?_⟩⟩
  rcases Nat.le_total s'.2.length s.2.length with hle | hle
  · exact hle
  · have hbegins := List.prefix_of_prefix_length_le ⟨_, h.symm⟩ hfits hle
    rw [halone s' hs' hbegins]

theorem Covers.token {t : Token} (h : Fits source t) : Covers source t.position [t] t.stop :=
  .cons (.refl _ _) h (.nil (.refl _ _))

theorem Covers.space (h : source.drop i = ' ' :: rest) : Covers source i [] (i + 1) := by
  have hgap : Gap source i (i + [' '].length) := by
    refine Gap.of_blanks (fun c hc => ?_) h
    rw [List.mem_singleton.mp hc]
    decide
  exact .nil hgap

end

def Reads (form : List Token → Prop) (t : Text) : Prop :=
  ∀ (source after : Text) (i : Nat), source.drop i = t ++ after → (after = [] ∨ Boundary after) →
    ∃ ts, Covers source i ts (i + t.length) ∧ form ts

def ReadsInside (form : List Token → Prop) (t : Text) : Prop :=
  ∀ (source after : Text) (i : Nat), source.drop i = t ++ ')' :: after →
    ∃ ts, Covers source i ts (i + t.length) ∧ form ts

theorem reads_literal (t : Text) :
    Reads (fun ts => ∃ u : Token, ts = [u] ∧ u.kind = .literal ∧ unquote u.text = t)
      (literal t) := by
  intro source after i hsource hafter
  have hfits : Fits source ⟨.literal, literal t, i⟩ := by
    refine ⟨by simp [literal], ⟨after, hsource.symm⟩, .inr ⟨rfl, ?_⟩⟩
    change Takes .outside (source.drop i) (literal t).length
    rw [hsource]
    exact takes_literal t hafter
  exact ⟨_, .token hfits, _, rfl, rfl, unquote_literal t⟩

section
variable {form form' : List Token → Prop} {l r t : Text}

theorem Reads.spaced (hl : Reads form l) (hr : Reads form' r) {s : TokenKind × Text}
    (hs : s ∈ symbols) : Reads (fun ts => ∃ us mark vs, ts = us ++ mark :: vs ∧ form us ∧
      mark.kind = s.1 ∧ mark.text = s.2 ∧ form' vs) (spaced l s.2 r) := by
  intro source after i hsource hafter
  have hleft : source.drop i = l ++ ' ' :: (s.2 ++ ' ' :: (r ++ after)) := by
    simp [hsource, Expression.spaced]
  have hspace := drop_behind hleft
  have hmark := drop_behind (t := [' ']) hspace
  have hspace' := drop_behind hmark
  have hright := drop_behind (t := [' ']) hspace'
  obtain ⟨us, hus, hform⟩ := hl source _ i hleft (.inr (boundary_space _))
  obtain ⟨vs, hvs, hform'⟩ := hr source after _ hright hafter
  have hlast := (Covers.token (fits_spaced hs hmark)).append ((Covers.space hspace').append hvs)
  have hall := hus.append ((Covers.space hspace).append hlast)
  refine ⟨_, ?_, us, ⟨s.1, s.2, i + l.length + 1⟩, vs, rfl, hform, rfl, rfl, hform'⟩
  have hlength : i + (Expression.spaced l s.2 r).length =
      i + l.length + 1 + s.2.length + 1 + r.length := by
    simp only [Expression.spaced, List.length_append, List.length_cons]
    omega
  rw [hlength]
  exact hall

theorem ReadsInside.group (h : ReadsInside form t) : Reads (fun ts => ∃ opening us closing,
    ts = opening :: (us ++ [closing]) ∧ opening.kind = .leftParen ∧ form us ∧
      closing.kind = .rightParen) (enclosed true t) := by
  intro source after i hsource hafter
  have hopening : source.drop i = ['('] ++ (t ++ ([')'] ++ after)) := by
    simp [hsource, enclosed]
  have hinner := drop_behind hopening
  have hclosing := drop_behind hinner
  obtain ⟨us, hus, hform⟩ := h source _ _ hinner
  have hfirst : Fits source ⟨.leftParen, ['('], i⟩ :=
    fits_alone (s := (.leftParen, ['('])) (by decide) (by decide) hopening
  have hlast : Fits source ⟨.rightParen, [')'], i + 1 + t.length⟩ :=
    fits_alone (s := (.rightParen, [')'])) (by decide) (by decide) hclosing
  have hall := (Covers.token hfirst).append (hus.append (Covers.token hlast))
  refine ⟨_, ?_, ⟨.leftParen, ['('], i⟩, us, ⟨.rightParen, [')'], i + 1 + t.length⟩, rfl, rfl,
    hform, rfl⟩
  have hlength : i + (enclosed true t).length = i + 1 + t.length + 1 := by
    simp only [enclosed, if_true, List.length_append, List.length_cons, List.length_nil]
    omega
  rw [hlength]
  exact hall

theorem Reads.inside (h : Reads form t) : ReadsInside form t := by
  intro source after i hsource
  have hends : Boundary (')' :: after) :=
    .inr ⟨(.rightParen, [')']), by decide, List.prefix_append _ _⟩
  exact h source _ i hsource (.inr hends)

end

theorem Reads.mono {form form' : List Token → Prop} {t : Text} (h : Reads form t)
    (himp : ∀ ts, form ts → form' ts) : Reads form' t := by
  intro source after i hsource hafter
  obtain ⟨ts, hcovers, hform⟩ := h source after i hsource hafter
  exact ⟨ts, hcovers, himp ts hform⟩

theorem comparator_mem_symbols (c : Comparator) : (.operator, c.symbol) ∈ symbols := by
  cases c <;> decide

namespace Condition

/-- An operand is derived by the rule that its place asks for, in parentheses or without. -/
theorem operand_reads {c : Condition} (group : Bool) (target : Rule)
    (h : Reads (fun ts => Derives (rule c) (nesting c) ts c) (written c))
    (hrule : group = false → (rule c).rank ≤ target.rank) :
    Reads (fun ts => Derives target (nesting c + group.toNat) ts c)
      (enclosed group (written c)) := by
  cases group with
  | false => exact h.mono fun ts hts => hts.widen (hrule rfl)
  | true =>
    refine h.inside.group.mono ?_
    rintro ts ⟨opening, us, closing, rfl, hopening, hus, hclosing⟩
    have hexpression : Derives .expression (nesting c) us c := hus.widen (rule c).rank_le
    exact (Derives.group hopening hexpression hclosing).widen (Nat.zero_le _)

theorem written_reads (c : Condition) :
    Reads (fun ts => Derives (rule c) (nesting c) ts c) (written c) := by
  induction c with
  | atom a =>
    refine ((reads_literal a.left).spaced (reads_literal a.right)
      (comparator_mem_symbols a.comparator)).mono ?_
    rintro ts ⟨us, mark, vs, rfl, ⟨u, rfl, hu, hleft⟩, hkind, htext, ⟨v, rfl, hv, hright⟩⟩
    have hderives : Derives .primary 0 [u, mark, v] _ := .comparison hu hkind htext.symm hv
    rw [hleft, hright] at hderives
    exact hderives
  | and l r ihl ihr =>
    have hl := operand_reads (grouped .and false l) .conjunction ihl
      (by cases l <;> simp [grouped, rule, Rule.rank])
    have hr := operand_reads (grouped .and true r) .primary ihr
      (by cases r <;> simp [grouped, rule, Rule.rank])
    refine (hl.spaced hr (s := (.and, ['&', '&'])) (by decide)).mono ?_
    rintro ts ⟨us, mark, vs, rfl, hus, hkind, -, hvs⟩
    exact .and (hus.mono (Nat.le_max_left _ _)) hkind (hvs.mono (Nat.le_max_right _ _))
  | or l r ihl ihr =>
    have hl := operand_reads (grouped .or false l) .expression ihl fun _ => (rule l).rank_le
    have hr := operand_reads (grouped .or true r) .conjunction ihr
      (by cases r <;> simp [grouped, rule, Rule.rank])
    refine (hl.spaced hr (s := (.or, ['|', '|'])) (by decide)).mono ?_
    rintro ts ⟨us, mark, vs, rfl, hus, hkind, -, hvs⟩
    exact .or (hus.mono (Nat.le_max_left _ _)) hkind (hvs.mono (Nat.le_max_right _ _))

end Condition

/-- A condition reads back from what is written of it, as long as its parentheses nest no deeper
than a parser allows. -/
theorem parse_written (c : Condition) (h : c.nesting ≤ 50) : parse c.written = .ok c := by
  obtain ⟨ts, hcovers, hderives⟩ :=
    Condition.written_reads c c.written [] 0 (by simp) (.inl rfl)
  rw [Nat.zero_add] at hcovers
  have htokens : Tokenized c.written ts := ⟨_, rfl, tokens_of_covers hcovers⟩
  exact parse_of_derives htokens ((hderives.mono h).widen (Rule.rank_le _))

def thicket : Condition :=
  .and (.or (.atom ⟨[], .equal, ['\'', '\\', '"']⟩) (.atom ⟨['&', '&'], .lacks, [' ', '(']⟩))
    (.and (.atom ⟨['a', '\\'], .greaterEq, ['>', '=']⟩) (.atom ⟨['\'', '\''], .within, ['b']⟩))

theorem parse_written_thicket : thicket.nesting ≤ 50 ∧ parse thicket.written = .ok thicket :=
  ⟨by decide, parse_written thicket (by decide)⟩

end Conditions.Expression
