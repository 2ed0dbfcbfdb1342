import Conditions.Json.Reader
import Conditions.Json.Writer
import Conditions.Proofs.Number.ReadingBack

/-!
# What is written is read

A value without infinite or undefined numbers is read back from its text, in either style. On one
line the text has printable ASCII characters only.
-/

set_option autoImplicit false

namespace Conditions.Json

def Plain (c : Char) : Prop := 0x20 ≤ c.toNat ∧ c.toNat ≤ 0x7e

instance : DecidablePred Plain := fun _ => inferInstanceAs (Decidable (_ ∧ _))

theorem hexValue?_hexDigit : ∀ n < 16, hexValue? (Text.hexDigit n) = some n := by decide

theorem hexDigit_plain : ∀ n < 16, Plain (Text.hexDigit n) := by decide

theorem hex_plain (width n : ℕ) : ∀ c ∈ Text.hex width n, Plain c := by
  induction width generalizing n with
  | zero => simp [Text.hex]
  | succ width ih =>
    rw [Text.hex, List.forall_mem_append, List.forall_mem_singleton]
    exact ⟨ih (n / 16), hexDigit_plain _ (Nat.mod_lt n (by norm_num))⟩

theorem unit?_hex {n : ℕ} (hn : n < 0x10000) (t : Text) :
    unit? (Text.hex 4 n ++ t) = some (n, t) := by
  have hvalue : ∀ m, hexValue? (Text.hexDigit (m % 16)) = some (m % 16) := fun m =>
    hexValue?_hexDigit _ (Nat.mod_lt m (by norm_num))
  have hsum : ((n / 16 / 16 / 16 % 16 * 16 + n / 16 / 16 % 16) * 16 + n / 16 % 16) * 16 + n % 16 =
      n := by omega
  simp only [Text.hex, List.nil_append, List.cons_append, unit?, hvalue, Option.bind_eq_bind,
    Option.bind_some, hsum]
  rfl

/-- Scalar values stop at the surrogates, go on behind them, and end with the sixteenth plane. -/
theorem scalar (c : Char) : c.toNat < 0xd800 ∨ 0xdfff < c.toNat ∧ c.toNat < 0x110000 := c.valid

theorem escape?_unit {c : Char} (hc : c.toNat < 0x10000) (t : Text) :
    escape? ('u' :: Text.hex 4 c.toNat ++ t) = some (c, t) := by
  have hscalar : (decide (0xd800 ≤ c.toNat) && decide (c.toNat < 0xdc00)) = false := by
    have hscalar := scalar c
    rw [Bool.and_eq_false_iff, decide_eq_false_iff_not, decide_eq_false_iff_not]
    omega
  rw [List.cons_append, escape?, unit?_hex hc]
  simp only [Option.bind_eq_bind, Option.bind_some, hscalar, Bool.false_eq_true, if_false,
    Char.ofNat_toNat]
  rfl

theorem escape?_surrogates {high low : ℕ} (hhigh : 0xd800 ≤ high ∧ high < 0xdc00)
    (hlow : 0xdc00 ≤ low ∧ low < 0xe000) (t : Text) :
    escape? ('u' :: Text.hex 4 high ++ escapeUnit low ++ t) =
      some (Char.ofNat (0x10000 + (high - 0xd800) * 0x400 + (low - 0xdc00)), t) := by
  have hhigh' : (decide (0xd800 ≤ high) && decide (high < 0xdc00)) = true := by simpa using hhigh
  have hlow' : (decide (0xdc00 ≤ low) && decide (low < 0xe000)) = true := by simpa using hlow
  rw [List.append_assoc, List.cons_append, escape?, unit?_hex (by omega)]
  simp only [Option.bind_eq_bind, Option.bind_some, hhigh', if_true, escapeUnit, List.cons_append,
    unit?_hex (show low < 0x10000 by omega), hlow']
  rfl

theorem escape?_pair {c : Char} (hc : 0x10000 ≤ c.toNat) (t : Text) :
    escape? ('u' :: Text.hex 4 (0xd800 + (c.toNat - 0x10000) / 0x400) ++
      escapeUnit (0xdc00 + (c.toNat - 0x10000) % 0x400) ++ t) = some (c, t) := by
  have hscalar := scalar c
  have hpair := escape?_surrogates
    (show 0xd800 ≤ 0xd800 + (c.toNat - 0x10000) / 0x400 ∧ _ by omega)
    (show 0xdc00 ≤ 0xdc00 + (c.toNat - 0x10000) % 0x400 ∧ _ by omega) t
  rw [Nat.add_sub_cancel_left, Nat.add_sub_cancel_left, add_assoc, Nat.div_add_mod',
    Nat.add_sub_cancel' hc, Char.ofNat_toNat] at hpair
  exact hpair

/-- A character stands for itself or is written as an escape of it. -/
theorem escapeChar_spec (c : Char) :
    (escapeChar c = [c] ∧ c ≠ '"' ∧ c ≠ '\\' ∧ Plain c) ∨
      ∃ e, escapeChar c = '\\' :: e ∧ (∀ t, escape? (e ++ t) = some (c, t)) ∧ ∀ d ∈ e, Plain d := by
  unfold escapeChar
  split_ifs with hquote hslash hline hreturn htab hback hfeed hplain hbasic
  · subst hquote
    exact .inr ⟨['"'], rfl, fun _ => rfl, List.forall_mem_singleton.mpr (by decide)⟩
  · subst hslash
    exact .inr ⟨['\\'], rfl, fun _ => rfl, List.forall_mem_singleton.mpr (by decide)⟩
  · subst hline
    exact .inr ⟨['n'], rfl, fun _ => rfl, List.forall_mem_singleton.mpr (by decide)⟩
  · subst hreturn
    exact .inr ⟨['r'], rfl, fun _ => rfl, List.forall_mem_singleton.mpr (by decide)⟩
  · subst htab
    exact .inr ⟨['t'], rfl, fun _ => rfl, List.forall_mem_singleton.mpr (by decide)⟩
  · subst hback
    exact .inr ⟨['b'], rfl, fun _ => rfl, List.forall_mem_singleton.mpr (by decide)⟩
  · subst hfeed
    exact .inr ⟨['f'], rfl, fun _ => rfl, List.forall_mem_singleton.mpr (by decide)⟩
  · exact .inl ⟨rfl, hquote, hslash, by simpa [Plain] using hplain⟩
  · refine .inr ⟨_, rfl, escape?_unit hbasic, ?_⟩
    exact List.forall_mem_cons.mpr ⟨by decide, hex_plain 4 _⟩
  · refine .inr ⟨_, rfl, escape?_pair (not_lt.mp hbasic), ?_⟩
    refine List.forall_mem_append.mpr ⟨List.forall_mem_cons.mpr ⟨by decide, hex_plain 4 _⟩, ?_⟩
    exact List.forall_mem_cons.mpr ⟨by decide, List.forall_mem_cons.mpr ⟨by decide, hex_plain 4 _⟩⟩

/-- One step is taken for a character, and one for the closing quote. -/
theorem readChars?_escaped (s : Text) {fuel : ℕ} (hfuel : s.length < fuel) (rest : Text) :
    readChars? fuel (s.flatMap escapeChar ++ '"' :: rest) = some (s, rest) := by
  induction s generalizing fuel with
  | nil =>
    obtain ⟨fuel, rfl⟩ := Nat.exists_eq_succ_of_ne_zero hfuel.ne'
    rfl
  | cons c s ih =>
    obtain ⟨fuel, rfl⟩ := Nat.exists_eq_succ_of_ne_zero (Nat.ne_zero_of_lt hfuel)
    have hrest := ih (Nat.lt_of_succ_lt_succ hfuel)
    rw [List.flatMap_cons, List.append_assoc]
    obtain ⟨hself, hquote, hslash, -⟩ | ⟨e, hescape, hread, -⟩ := escapeChar_spec c
    · rw [hself, List.singleton_append, readChars?, hrest]
      · rfl
      · exact hquote
      · exact hslash
    · rw [hescape, List.cons_append, readChars?, hread, Option.bind_eq_bind, Option.bind_some]
      dsimp only
      rw [hrest]
      rfl

theorem writeString_plain (s : String) : ∀ c ∈ writeString s, Plain c := by
  have hchars : ∀ c ∈ s.toList.flatMap escapeChar, Plain c := by
    intro d hd
    obtain ⟨c, -, hc⟩ := List.mem_flatMap.mp hd
    obtain ⟨hself, -, -, hplain⟩ | ⟨e, hescape, -, hplain⟩ := escapeChar_spec c
    · rw [hself, List.mem_singleton] at hc
      exact hc ▸ hplain
    · rw [hescape] at hc
      exact List.forall_mem_cons.mpr ⟨by decide, hplain⟩ d hc
  rw [writeString, List.forall_mem_append, List.forall_mem_cons, List.forall_mem_singleton]
  exact ⟨⟨by decide, hchars⟩, by decide⟩

theorem length_le_writeString (s : String) : s.toList.length + 2 ≤ (writeString s).length := by
  have hchar : ∀ c, 1 ≤ (escapeChar c).length := by
    intro c
    obtain ⟨hself, -⟩ | ⟨e, hescape, -⟩ := escapeChar_spec c <;> simp [*]
  have hchars : s.toList.length ≤ (s.toList.flatMap escapeChar).length := by
    rw [List.length_flatMap, ← List.length_map (f := fun c => (escapeChar c).length)]
    exact List.length_le_sum_of_one_le _ (by simpa using fun c _ => hchar c)
  rw [writeString, List.length_append, List.length_cons, List.length_singleton]
  omega

def Gap (t : Text) : Prop := ∀ c ∈ t, isSpace c = true

theorem Gap.skipSpace {gap : Text} (hgap : Gap gap) (t : Text) :
    skipSpace (gap ++ t) = skipSpace t :=
  List.dropWhile_append_of_pos hgap

theorem skipSpace_cons {c : Char} (hc : isSpace c = false) (t : Text) :
    skipSpace (c :: t) = c :: t :=
  List.dropWhile_cons_of_neg (by simp [hc])

def Solid (t : Text) : Prop := ∃ c u, t = c :: u ∧ isSpace c = false ∧ c ≠ ']'

theorem Solid.append {t : Text} (ht : Solid t) (u : Text) : Solid (t ++ u) := by
  obtain ⟨c, v, rfl, hc⟩ := ht
  exact ⟨c, v ++ u, rfl, hc⟩

theorem Solid.skipSpace {t : Text} (ht : Solid t) : Json.skipSpace t = t := by
  obtain ⟨c, u, rfl, hc, -⟩ := ht
  exact skipSpace_cons hc u

def Stops (t : Text) : Prop := ∀ c ∈ t.head?, isNumberChar c = false

theorem Stops.takeWhile_append {t rest : Text} (hrest : Stops rest)
    (ht : ∀ c ∈ t, isNumberChar c = true) : (t ++ rest).takeWhile isNumberChar = t := by
  rw [List.takeWhile_append_of_pos ht]
  cases rest with
  | nil => exact List.append_nil t
  | cons c rest => rw [List.takeWhile_cons_of_neg (by simp [hrest c rfl]), List.append_nil]

theorem Stops.dropWhile_append {t rest : Text} (hrest : Stops rest)
    (ht : ∀ c ∈ t, isNumberChar c = true) : (t ++ rest).dropWhile isNumberChar = rest := by
  rw [List.dropWhile_append_of_pos ht]
  cases rest with
  | nil => rfl
  | cons c rest => rw [List.dropWhile_cons_of_neg (by simp [hrest c rfl])]

structure Numeral (t : Text) (j : Json) : Prop where
  nonempty : t ≠ []
  chars : ∀ c ∈ t, isNumberChar c = true
  value : number? t = some j

theorem isNumberChar_iff (c : Char) :
    isNumberChar c = true ↔ c.isDigit = true ∨ c ∈ ['-', '+', '.', 'e', 'E'] := by
  simp [isNumberChar, or_assoc]

theorem isNumberChar_of_isDigit {c : Char} (h : c.isDigit = true) : isNumberChar c = true :=
  (isNumberChar_iff c).mpr (.inl h)

theorem plain_of_isNumberChar {c : Char} (h : isNumberChar c = true) : Plain c := by
  rcases (isNumberChar_iff c).mp h with hdigit | hmark
  · rw [Char.isDigit, Bool.and_eq_true, decide_eq_true_eq, decide_eq_true_eq, ge_iff_le,
      UInt32.le_iff_toNat_le, UInt32.le_iff_toNat_le] at hdigit
    exact ⟨le_trans (by decide) hdigit.1, le_trans hdigit.2 (by decide)⟩
  · simp only [List.mem_cons, List.not_mem_nil, or_false] at hmark
    rcases hmark with rfl | rfl | rfl | rfl | rfl <;> decide

theorem isSpace_of_isNumberChar {c : Char} (h : isNumberChar c = true) : isSpace c = false := by
  rw [Bool.eq_false_iff]
  intro hspace
  simp only [isSpace, Bool.or_eq_true, beq_iff_eq] at hspace
  rcases hspace with ((rfl | rfl) | rfl) | rfl <;> exact absurd h (by decide)

theorem Numeral.solid {t : Text} {j : Json} (h : Numeral t j) : Solid t := by
  obtain ⟨c, u, rfl⟩ := List.exists_cons_of_ne_nil h.nonempty
  have hc := h.chars c List.mem_cons_self
  refine ⟨c, u, rfl, isSpace_of_isNumberChar hc, ?_⟩
  rintro rfl
  cases hc

theorem Numeral.readValue? {t : Text} {j : Json} (h : Numeral t j) {rest : Text}
    (hrest : Stops rest) (fuel : ℕ) : readValue? (fuel + 1) (t ++ rest) = some (j, rest) := by
  have hhead : ∀ {c u}, t ++ rest = c :: u → isNumberChar c = true := by
    intro c u hcons
    refine h.chars c ?_
    obtain ⟨d, v, rfl⟩ := List.exists_cons_of_ne_nil h.nonempty
    rw [List.cons_append, List.cons.injEq] at hcons
    exact hcons.1 ▸ List.mem_cons_self
  rw [Json.readValue?, (h.solid.append rest).skipSpace]
  split
  case h_7 =>
    rw [hrest.takeWhile_append h.chars, hrest.dropWhile_append h.chars, h.value]
    rfl
  all_goals
    rename_i heq
    exact absurd (hhead heq) (by decide)

theorem readUnsigned?_digits {t : Text} {n : ℕ} (h : DigitRun t n) (hne : t ≠ []) :
    Decimal.readUnsigned? t = some (n, 0) := by
  have hwhole : t.takeWhile Char.isDigit = t := List.takeWhile_eq_self_iff.mpr h.digits
  have hnothing : t.dropWhile Char.isDigit = [] := List.dropWhile_eq_nil_iff.mpr h.digits
  unfold Decimal.readUnsigned?
  rw [hwhole, hnothing]
  simp [hne, Decimal.readExponent?, Decimal.ofDigits_eq, h.count]

theorem numeral_digits {t : Text} {n : ℕ} (h : DigitRun t n) (hne : t ≠ []) (negative : Bool) :
    Numeral (if negative then '-' :: t else t) (.int (if negative then -(n : ℤ) else n)) := by
  have hmark : ∀ c ∈ t, ¬(c == '.' || c == 'e' || c == 'E') = true := by
    intro c hc hmark
    have hdigit := h.digits c hc
    simp only [Bool.or_eq_true, beq_iff_eq] at hmark
    rcases hmark with (rfl | rfl) | rfl <;> cases hdigit
  have hread : Decimal.read? (if negative then '-' :: t else t) = some ⟨negative, n, 0⟩ := by
    rw [Decimal.read?_eq_some_iff,
      Decimal.splitSign_signed (Decimal.signless_of_digits h.digits) negative]
    exact ⟨readUnsigned?_digits h hne, rfl⟩
  refine ⟨by split_ifs <;> simp [hne], ?_, ?_⟩
  · have hdigits : ∀ c ∈ t, isNumberChar c = true := fun c hc =>
      isNumberChar_of_isDigit (h.digits c hc)
    split_ifs
    · exact List.forall_mem_cons.mpr ⟨rfl, hdigits⟩
    · exact hdigits
  · have hany : (if negative then '-' :: t else t).any
        (fun c => c == '.' || c == 'e' || c == 'E') = false := by
      rw [List.any_eq_false]
      split_ifs
      · exact List.forall_mem_cons.mpr ⟨by decide, hmark⟩
      · exact hmark
    unfold number?
    rw [hread, Option.bind_eq_bind, Option.bind_some, hany]
    rfl

theorem numeral_intText (n : ℤ) : Numeral (Number.intText n) (.int n) := by
  have hne : Number.natText n.natAbs ≠ [] := List.length_pos_iff.mp Nat.length_toDigits_pos
  have hnumeral := numeral_digits (Number.natText_run n.natAbs) hne (n < 0)
  simp only [decide_eq_true_eq] at hnumeral
  have hn : (if n < 0 then -(n.natAbs : ℤ) else n.natAbs) = n := by omega
  rwa [hn] at hnumeral

theorem significand_chars {t : Text} {x : ℚ} (h : Significand t x) :
    ∀ c ∈ t, isNumberChar c = true := by
  cases h with
  | whole digits => exact fun c hc => isNumberChar_of_isDigit (digits.digits c hc)
  | point front back =>
    refine List.forall_mem_append.mpr ⟨fun c hc => isNumberChar_of_isDigit (front.digits c hc), ?_⟩
    exact List.forall_mem_cons.mpr
      ⟨rfl, fun c hc => isNumberChar_of_isDigit (back.digits c hc)⟩

theorem power_chars {t : Text} {k : ℤ} (h : Power t k) : ∀ c ∈ t, isNumberChar c = true := by
  cases h with
  | absent => simp
  | marked mem factor digits =>
    refine List.forall_mem_cons.mpr ⟨?_, List.forall_mem_append.mpr ⟨?_, fun c hc =>
      isNumberChar_of_isDigit (digits.digits c hc)⟩⟩
    · rcases mem with rfl | rfl <;> rfl
    · cases factor <;> simp [isNumberChar]

theorem numeral_text {x : Binary64} (hfinite : x.code < Binary64.infinityCode) :
    Numeral (numberLayout.text x) (.float x) := by
  obtain ⟨t, y, htext, ⟨u, v, z, k, rfl, hsignificand, hpower, -, hmarked⟩, -⟩ :=
    numberLayout.text_spells hfinite
  obtain ⟨d, hread, hd⟩ := numberLayout.read?_text hfinite
  have hchars : ∀ c ∈ u ++ v, isNumberChar c = true :=
    List.forall_mem_append.mpr ⟨significand_chars hsignificand, power_chars hpower⟩
  have hany : (numberLayout.text x).any (fun c => c == '.' || c == 'e' || c == 'E') = true := by
    have hmem : ∀ c ∈ u ++ v, c ∈ numberLayout.text x := by
      intro c hc
      rw [htext]
      split_ifs
      · exact List.mem_cons_of_mem _ hc
      · exact hc
    rcases hmarked with hpoint | hpower
    · exact List.any_eq_true.mpr ⟨'.', hmem _ hpoint, rfl⟩
    · exact List.any_eq_true.mpr ⟨'e', hmem _ hpower, rfl⟩
  refine ⟨?_, ?_, ?_⟩
  · intro hnil
    rw [hnil] at hany
    cases hany
  · rw [htext]
    split_ifs
    · exact List.forall_mem_cons.mpr ⟨rfl, hchars⟩
    · exact hchars
  · unfold number?
    rw [hread, Option.bind_eq_bind, Option.bind_some, hany, if_pos rfl, hd]
    rfl

def Style.lead : Style → Text
  | .line => []
  | .spread indent => newline (indent + 2)

def Style.between : Style → Text
  | .line => [' ']
  | .spread indent => newline (indent + 2)

def Style.trail : Style → Text
  | .line => []
  | .spread indent => newline indent

theorem gap_newline (indent : ℕ) : Gap (newline indent) :=
  List.forall_mem_cons.mpr ⟨rfl, fun c hc => by rw [List.eq_of_mem_replicate hc]; rfl⟩

theorem Style.gap_lead (style : Style) : Gap style.lead := by
  cases style with
  | line => simp [lead, Gap]
  | spread indent => exact gap_newline (indent + 2)

theorem Style.gap_between (style : Style) : Gap style.between := by
  cases style with
  | line => exact List.forall_mem_singleton.mpr rfl
  | spread indent => exact gap_newline (indent + 2)

theorem Style.gap_trail (style : Style) : Gap style.trail := by
  cases style with
  | line => simp [trail, Gap]
  | spread indent => exact gap_newline indent

theorem enclose_append (style : Style) (opening closing : Char) {parts : List Text}
    (h : parts ≠ []) (rest : Text) :
    enclose style opening closing parts ++ rest =
      opening :: (style.lead ++ (join (',' :: style.between) parts ++
        (style.trail ++ closing :: rest))) := by
  unfold enclose
  rw [if_neg (by simpa using h)]
  cases style <;> simp [Style.lead, Style.between, Style.trail]

theorem join_length_lt_enclose (style : Style) (opening closing : Char) {parts : List Text}
    (h : parts ≠ []) :
    (join (',' :: style.between) parts).length + 1 <
      (enclose style opening closing parts).length := by
  rw [← List.append_nil (enclose style opening closing parts),
    enclose_append style opening closing h]
  simp only [List.length_append, List.length_cons]
  omega

theorem stops_cons {c : Char} (hc : isNumberChar c = false) (t : Text) : Stops (c :: t) := by
  rintro d ⟨⟩
  exact hc

theorem Gap.stops {gap : Text} (hgap : Gap gap) {c : Char} (hc : isNumberChar c = false)
    (t : Text) : Stops (gap ++ c :: t) := by
  cases gap with
  | nil => exact stops_cons hc t
  | cons blank gap =>
    refine stops_cons (Bool.eq_false_iff.mpr fun hnumber => ?_) _
    have hblank := hgap blank List.mem_cons_self
    rw [isSpace_of_isNumberChar hnumber] at hblank
    cases hblank

theorem join_cons_cons (separator t u : Text) (rest : List Text) :
    join separator (t :: u :: rest) = t ++ (separator ++ join separator (u :: rest)) :=
  List.append_assoc ..

theorem readValue?_gap {gap : Text} (hgap : Gap gap) (fuel : ℕ) (t : Text) :
    readValue? fuel (gap ++ t) = readValue? fuel t := by
  cases fuel with
  | zero => rfl
  | succ fuel => rw [readValue?, readValue?, hgap.skipSpace]

theorem readElements?_gap {gap : Text} (hgap : Gap gap) (fuel : ℕ) (t : Text) :
    readElements? fuel (gap ++ t) = readElements? fuel t := by
  cases fuel with
  | zero => rfl
  | succ fuel => rw [readElements?, readElements?, readValue?_gap hgap]

theorem readMembers?_gap {gap : Text} (hgap : Gap gap) (fuel : ℕ) (t : Text) :
    readMembers? fuel (gap ++ t) = readMembers? fuel t := by
  cases fuel with
  | zero => rfl
  | succ fuel => rw [readMembers?, readMembers?, hgap.skipSpace]

inductive Finite : Json → Prop
  | null : Finite .null
  | bool (b : Bool) : Finite (.bool b)
  | int (n : ℤ) : Finite (.int n)
  | float {x : Binary64} (h : x.code < Binary64.infinityCode) : Finite (.float x)
  | string (s : String) : Finite (.string s)
  | array {elements : List Json} (h : ∀ j ∈ elements, Finite j) : Finite (.array elements)
  | object {members : List (String × Json)} (h : ∀ m ∈ members, Finite m.2) :
      Finite (.object members)

def Reads (style : Style) (j : Json) : Prop :=
  Solid (layout style j) ∧ ∀ {fuel : ℕ}, (layout style j).length ≤ fuel →
    ∀ {rest : Text}, Stops rest → readValue? fuel (layout style j ++ rest) = some (j, rest)

/-- What stands behind an element decides how the list goes on. -/
theorem readElements?_element {fuel : ℕ} {t behind : Text} {j : Json}
    (h : readValue? fuel t = some (j, behind)) (rest : Text) :
    (skipSpace behind = ',' :: rest → readElements? (fuel + 1) t =
      (readElements? fuel rest).map fun (elements, rest) => (j :: elements, rest)) ∧
    (skipSpace behind = ']' :: rest → readElements? (fuel + 1) t = some ([j], rest)) := by
  rw [readElements?, h, Option.bind_eq_bind, Option.bind_some]
  dsimp only
  constructor
  · intro hcomma
    rw [hcomma]
    exact Option.map_eq_bind.symm
  · intro hclose
    rw [hclose]
    rfl

/-- A member is a key, a colon and a value; what stands behind it decides how the object goes on. -/
theorem readMembers?_member {fuel : ℕ} {key t u v w behind : Text} {j : Json}
    (ht : skipSpace t = '"' :: u) (hkey : readChars? fuel u = some (key, v))
    (hcolon : skipSpace v = ':' :: w) (hvalue : readValue? fuel w = some (j, behind))
    (rest : Text) :
    (skipSpace behind = ',' :: rest → readMembers? (fuel + 1) t =
      (readMembers? fuel rest).map fun (members, rest) =>
        ((String.ofList key, j) :: members, rest)) ∧
    (skipSpace behind = '\x7d' :: rest →
      readMembers? (fuel + 1) t = some ([(String.ofList key, j)], rest)) := by
  rw [readMembers?, ht]
  change (_ → (readChars? fuel u).bind _ = _) ∧ (_ → (readChars? fuel u).bind _ = _)
  rw [hkey, Option.bind_some]
  dsimp only
  rw [hcolon]
  change (_ → (readValue? fuel w).bind _ = _) ∧ (_ → (readValue? fuel w).bind _ = _)
  rw [hvalue, Option.bind_some]
  dsimp only
  constructor
  · intro hcomma
    rw [hcomma]
    exact Option.map_eq_bind.symm
  · intro hclose
    rw [hclose]
    rfl

theorem readElements?_join (style : Style) {elements : List Json} (hne : elements ≠ [])
    (helements : ∀ j ∈ elements, Reads style.inner j) {fuel : ℕ}
    (hfuel : (join (',' :: style.between) (layoutElements style.inner elements)).length < fuel)
    (rest : Text) :
    readElements? fuel (join (',' :: style.between) (layoutElements style.inner elements) ++
      (style.trail ++ ']' :: rest)) = some (elements, rest) := by
  induction elements generalizing fuel with
  | nil => exact absurd rfl hne
  | cons j elements ih =>
    obtain ⟨fuel, rfl⟩ := Nat.exists_eq_succ_of_ne_zero (Nat.ne_zero_of_lt hfuel)
    obtain ⟨-, hread⟩ := helements j List.mem_cons_self
    cases elements with
    | nil =>
      have hstops : Stops (style.trail ++ ']' :: rest) := style.gap_trail.stops rfl rest
      refine (readElements?_element (hread (Nat.le_of_lt_succ hfuel) hstops) rest).2 ?_
      rw [style.gap_trail.skipSpace, skipSpace_cons rfl]
    | cons k elements =>
      have hjoin : join (',' :: style.between) (layoutElements style.inner (j :: k :: elements)) =
          layout style.inner j ++ (',' :: style.between ++
            join (',' :: style.between) (layoutElements style.inner (k :: elements))) := by
        rw [layoutElements, layoutElements, join_cons_cons, ← layoutElements]
      obtain ⟨hfirst, hmore⟩ : (layout style.inner j).length ≤ fuel ∧
          (join (',' :: style.between) (layoutElements style.inner (k :: elements))).length <
            fuel := by
        rw [hjoin] at hfuel
        simp only [List.length_append, List.length_cons] at hfuel
        omega
      have hrest := ih (List.cons_ne_nil k elements)
        (fun e he => helements e (List.mem_cons_of_mem j he)) hmore
      have hvalue := hread hfirst (stops_cons (c := ',') rfl
        (style.between ++ join (',' :: style.between) (layoutElements style.inner (k :: elements)) ++
          (style.trail ++ ']' :: rest)))
      rw [hjoin, List.append_assoc, List.cons_append, List.cons_append,
        (readElements?_element hvalue _).1 (skipSpace_cons rfl _), List.append_assoc,
        readElements?_gap style.gap_between, hrest]
      rfl

theorem readMembers?_written {style : Style} {key : String} {j : Json} (hj : Reads style j)
    {fuel : ℕ} (hfuel : (writeString key ++ ':' :: ' ' :: layout style j).length ≤ fuel)
    {behind : Text} (hbehind : Stops behind) (rest : Text) :
    (skipSpace behind = ',' :: rest →
      readMembers? (fuel + 1) (writeString key ++ ':' :: ' ' :: layout style j ++ behind) =
        (readMembers? fuel rest).map fun (members, rest) => ((key, j) :: members, rest)) ∧
    (skipSpace behind = '\x7d' :: rest →
      readMembers? (fuel + 1) (writeString key ++ ':' :: ' ' :: layout style j ++ behind) =
        some ([(key, j)], rest)) := by
  have hlength := length_le_writeString key
  rw [List.length_append, List.length_cons, List.length_cons] at hfuel
  have htext : writeString key ++ ':' :: ' ' :: layout style j ++ behind =
      '"' :: (key.toList.flatMap escapeChar ++ '"' :: ':' :: ' ' :: (layout style j ++ behind)) := by
    simp [writeString]
  have hkey := readChars?_escaped key.toList (show _ < fuel by omega)
    (':' :: ' ' :: (layout style j ++ behind))
  have hvalue : readValue? fuel (' ' :: (layout style j ++ behind)) = some (j, behind) := by
    rw [← List.singleton_append, readValue?_gap (List.forall_mem_singleton.mpr rfl),
      hj.2 (by omega) hbehind]
  have hmember := readMembers?_member (skipSpace_cons rfl _) hkey (skipSpace_cons rfl _) hvalue rest
  rwa [String.ofList_toList, ← htext] at hmember

theorem readMembers?_join (style : Style) {members : List (String × Json)} (hne : members ≠ [])
    (hmembers : ∀ m ∈ members, Reads style.inner m.2) {fuel : ℕ}
    (hfuel : (join (',' :: style.between) (layoutMembers style.inner members)).length < fuel)
    (rest : Text) :
    readMembers? fuel (join (',' :: style.between) (layoutMembers style.inner members) ++
      (style.trail ++ '\x7d' :: rest)) = some (members, rest) := by
  induction members generalizing fuel with
  | nil => exact absurd rfl hne
  | cons m members ih =>
    obtain ⟨fuel, rfl⟩ := Nat.exists_eq_succ_of_ne_zero (Nat.ne_zero_of_lt hfuel)
    obtain ⟨key, j⟩ := m
    have hread : Reads style.inner j := hmembers (key, j) List.mem_cons_self
    cases members with
    | nil =>
      have hstops : Stops (style.trail ++ '\x7d' :: rest) := style.gap_trail.stops rfl rest
      refine (readMembers?_written hread (Nat.le_of_lt_succ hfuel) hstops rest).2 ?_
      rw [style.gap_trail.skipSpace, skipSpace_cons rfl]
    | cons m members =>
      have hjoin : join (',' :: style.between)
          (layoutMembers style.inner ((key, j) :: m :: members)) =
            writeString key ++ ':' :: ' ' :: layout style.inner j ++ (',' :: style.between ++
              join (',' :: style.between) (layoutMembers style.inner (m :: members))) := by
        rw [layoutMembers, layoutMembers, join_cons_cons, ← layoutMembers]
      obtain ⟨hfirst, hmore⟩ :
          (writeString key ++ ':' :: ' ' :: layout style.inner j).length ≤ fuel ∧
            (join (',' :: style.between) (layoutMembers style.inner (m :: members))).length <
              fuel := by
        rw [hjoin] at hfuel
        simp only [List.length_append, List.length_cons] at hfuel ⊢
        omega
      have hrest := ih (List.cons_ne_nil m members)
        (fun e he => hmembers e (List.mem_cons_of_mem _ he)) hmore
      have hwritten := readMembers?_written hread hfirst (stops_cons (c := ',') rfl
        (style.between ++ join (',' :: style.between) (layoutMembers style.inner (m :: members)) ++
          (style.trail ++ '\x7d' :: rest)))
      rw [hjoin, List.append_assoc (writeString key ++ _), List.cons_append, List.cons_append,
        (hwritten _).1 (skipSpace_cons rfl _), List.append_assoc,
        readMembers?_gap style.gap_between, hrest]
      rfl

theorem join_cons (separator t : Text) (parts : List Text) :
    ∃ u, join separator (t :: parts) = t ++ u := by
  cases parts with
  | nil => exact ⟨[], (List.append_nil t).symm⟩
  | cons v parts => exact ⟨_, join_cons_cons separator t v parts⟩

theorem readValue?_array {t u : Text} (ht : skipSpace t = u) (hu : Solid u) (fuel : ℕ) :
    readValue? (fuel + 1) ('[' :: t) =
      (readElements? fuel u).map fun (elements, rest) => (Json.array elements, rest) := by
  obtain ⟨c, u, rfl, -, hc⟩ := hu
  rw [readValue?, skipSpace_cons rfl]
  split
  case h_5 heq =>
    rw [← List.tail_eq_of_cons_eq heq, ht]
    split
    · rename_i heq
      exact absurd (List.head_eq_of_cons_eq heq) hc
    · exact Option.map_eq_bind.symm
  case h_7 hother _ => exact absurd rfl (hother t)
  all_goals
    rename_i heq
    exact absurd (List.head_eq_of_cons_eq heq) (by decide)

theorem readValue?_object {t u : Text} (ht : skipSpace t = '"' :: u) (fuel : ℕ) :
    readValue? (fuel + 1) ('\x7b' :: t) =
      (readMembers? fuel ('"' :: u)).map fun (members, rest) => (Json.object members, rest) := by
  rw [readValue?, skipSpace_cons rfl]
  split
  case h_6 heq =>
    rw [← List.tail_eq_of_cons_eq heq, ht]
    exact Option.map_eq_bind.symm
  case h_7 hother => exact absurd rfl (hother t)
  all_goals
    rename_i heq
    exact absurd (List.head_eq_of_cons_eq heq) (by decide)

theorem reads_of_step {style : Style} {j : Json} (hsolid : Solid (layout style j))
    (hread : ∀ fuel rest, Stops rest →
      readValue? (fuel + 1) (layout style j ++ rest) = some (j, rest)) : Reads style j := by
  refine ⟨hsolid, fun {fuel} hfuel rest hrest => ?_⟩
  obtain ⟨c, u, htext, -⟩ := hsolid
  rw [htext, List.length_cons] at hfuel
  obtain ⟨fuel, rfl⟩ := Nat.exists_eq_succ_of_ne_zero (show fuel ≠ 0 by omega)
  exact hread fuel rest hrest

theorem reads_string (style : Style) (s : String) : Reads style (.string s) := by
  refine ⟨⟨'"', _, rfl, rfl, by decide⟩, fun {fuel} hfuel rest _ => ?_⟩
  have hlength := length_le_writeString s
  rw [layout] at hfuel ⊢
  obtain ⟨fuel, rfl⟩ := Nat.exists_eq_succ_of_ne_zero (show fuel ≠ 0 by omega)
  have htext : writeString s ++ rest = '"' :: (s.toList.flatMap escapeChar ++ '"' :: rest) := by
    simp [writeString]
  rw [htext, readValue?, skipSpace_cons rfl]
  change (readChars? fuel _).bind _ = _
  rw [readChars?_escaped s.toList (by omega), Option.bind_some]
  simp only [String.ofList_toList]
  rfl

theorem reads_array {style : Style} {elements : List Json}
    (h : ∀ j ∈ elements, Reads style.inner j) : Reads style (.array elements) := by
  cases elements with
  | nil => exact reads_of_step ⟨'[', _, rfl, rfl, by decide⟩ fun _ _ _ => rfl
  | cons j elements =>
    have hparts : layoutElements style.inner (j :: elements) ≠ [] := by
      rw [layoutElements]
      exact List.cons_ne_nil _ _
    have htext := enclose_append style '[' ']' hparts
    have hlength := join_length_lt_enclose style '[' ']' hparts
    refine ⟨⟨'[', _, (List.append_nil _).symm.trans (htext []), rfl, by decide⟩,
      fun {fuel} hfuel rest _ => ?_⟩
    rw [layout] at hfuel ⊢
    obtain ⟨fuel, rfl⟩ := Nat.exists_eq_succ_of_ne_zero (show fuel ≠ 0 by omega)
    have hsolid : Solid (join (',' :: style.between) (layoutElements style.inner (j :: elements)) ++
        (style.trail ++ ']' :: rest)) := by
      obtain ⟨u, hjoin⟩ := join_cons (',' :: style.between) (layout style.inner j)
        (layoutElements style.inner elements)
      rw [layoutElements, hjoin]
      exact ((h j List.mem_cons_self).1.append u).append _
    rw [htext, readValue?_array ((style.gap_lead.skipSpace _).trans hsolid.skipSpace) hsolid,
      readElements?_join style (List.cons_ne_nil j elements) h (by omega)]
    rfl

theorem reads_object {style : Style} {members : List (String × Json)}
    (h : ∀ m ∈ members, Reads style.inner m.2) : Reads style (.object members) := by
  cases members with
  | nil => exact reads_of_step ⟨'\x7b', _, rfl, rfl, by decide⟩ fun _ _ _ => rfl
  | cons m members =>
    have hparts : layoutMembers style.inner (m :: members) ≠ [] := by
      rw [layoutMembers]
      exact List.cons_ne_nil _ _
    have htext := enclose_append style '\x7b' '\x7d' hparts
    have hlength := join_length_lt_enclose style '\x7b' '\x7d' hparts
    refine ⟨⟨'\x7b', _, (List.append_nil _).symm.trans (htext []), rfl, by decide⟩,
      fun {fuel} hfuel rest _ => ?_⟩
    rw [layout] at hfuel ⊢
    obtain ⟨fuel, rfl⟩ := Nat.exists_eq_succ_of_ne_zero (show fuel ≠ 0 by omega)
    obtain ⟨u, hjoin⟩ : ∃ u,
        join (',' :: style.between) (layoutMembers style.inner (m :: members)) ++
          (style.trail ++ '\x7d' :: rest) = '"' :: u := by
      obtain ⟨v, hjoin⟩ := join_cons (',' :: style.between)
        (writeString m.1 ++ ':' :: ' ' :: layout style.inner m.2) (layoutMembers style.inner members)
      rw [layoutMembers, hjoin]
      exact ⟨_, rfl⟩
    have hmembers := readMembers?_join style (List.cons_ne_nil m members) h
      (show _ < fuel by omega) rest
    rw [hjoin] at hmembers
    rw [htext, hjoin, readValue?_object ((style.gap_lead.skipSpace _).trans (skipSpace_cons rfl u)),
      hmembers]
    rfl

/-- A value without infinite or undefined numbers is read back in either style. -/
theorem Finite.reads {j : Json} (h : j.Finite) (style : Style) : Reads style j := by
  induction h generalizing style with
  | null => exact reads_of_step ⟨'n', _, rfl, rfl, by decide⟩ fun _ _ _ => rfl
  | bool b =>
    cases b with
    | false => exact reads_of_step ⟨'f', _, rfl, rfl, by decide⟩ fun _ _ _ => rfl
    | true => exact reads_of_step ⟨'t', _, rfl, rfl, by decide⟩ fun _ _ _ => rfl
  | int n =>
    have hnumeral := numeral_intText n
    exact reads_of_step hnumeral.solid fun fuel _ hrest => hnumeral.readValue? hrest fuel
  | float hfinite =>
    have hnumeral := numeral_text hfinite
    exact reads_of_step hnumeral.solid fun fuel _ hrest => hnumeral.readValue? hrest fuel
  | string s => exact reads_string style s
  | array _ ih => exact reads_array fun j hj => ih j hj style.inner
  | object _ ih => exact reads_object fun m hm => ih m hm style.inner

/-- A value without infinite or undefined numbers is what its text is read as. -/
theorem Finite.read?_layout {j : Json} (h : j.Finite) (style : Style) :
    read? (String.ofList (layout style j)) = some j := by
  have hstops : Stops [] := by rintro c ⟨⟩
  have hread := (h.reads style).2 (Nat.le_succ (layout style j).length) hstops
  rw [List.append_nil] at hread
  unfold read?
  rw [String.toList_ofList]
  dsimp only
  rw [hread]
  rfl

theorem join_plain {separator : Text} (hseparator : ∀ c ∈ separator, Plain c) {parts : List Text}
    (hparts : ∀ t ∈ parts, ∀ c ∈ t, Plain c) : ∀ c ∈ join separator parts, Plain c := by
  induction parts with
  | nil => simp [join]
  | cons t parts ih =>
    have ht := hparts t List.mem_cons_self
    cases parts with
    | nil => exact ht
    | cons u parts =>
      have hrest := ih fun v hv => hparts v (List.mem_cons_of_mem t hv)
      rw [join_cons_cons, List.forall_mem_append, List.forall_mem_append]
      exact ⟨ht, hseparator, hrest⟩

theorem enclose_plain {opening closing : Char} (hopening : Plain opening) (hclosing : Plain closing)
    {parts : List Text} (hparts : ∀ t ∈ parts, ∀ c ∈ t, Plain c) :
    ∀ c ∈ enclose .line opening closing parts, Plain c := by
  unfold enclose
  split_ifs
  · exact List.forall_mem_cons.mpr ⟨hopening, List.forall_mem_singleton.mpr hclosing⟩
  · have hseparator : ∀ c ∈ [',', ' '], Plain c :=
      List.forall_mem_cons.mpr ⟨by decide, List.forall_mem_singleton.mpr (by decide)⟩
    refine List.forall_mem_append.mpr ⟨List.forall_mem_cons.mpr
      ⟨hopening, join_plain hseparator hparts⟩, List.forall_mem_singleton.mpr hclosing⟩

theorem layoutElements_eq_map (style : Style) (elements : List Json) :
    layoutElements style elements = elements.map (layout style) := by
  induction elements with
  | nil => rw [layoutElements, List.map_nil]
  | cons j elements ih => rw [layoutElements, ih, List.map_cons]

theorem layoutMembers_eq_map (style : Style) (members : List (String × Json)) :
    layoutMembers style members =
      members.map fun m => writeString m.1 ++ ':' :: ' ' :: layout style m.2 := by
  induction members with
  | nil => rw [layoutMembers, List.map_nil]
  | cons m members ih => rw [layoutMembers, ih, List.map_cons]

theorem Finite.layout_plain {j : Json} (h : j.Finite) : ∀ c ∈ layout .line j, Plain c := by
  induction h with
  | null => simp [layout, Plain]
  | bool b => cases b <;> simp [layout, Plain]
  | int n => exact fun c hc => plain_of_isNumberChar ((numeral_intText n).chars c hc)
  | float hfinite => exact fun c hc => plain_of_isNumberChar ((numeral_text hfinite).chars c hc)
  | string s => exact writeString_plain s
  | array _ ih =>
    rw [layout, layoutElements_eq_map]
    refine enclose_plain (by decide) (by decide) fun t ht => ?_
    obtain ⟨j, hj, rfl⟩ := List.mem_map.mp ht
    exact ih j hj
  | object _ ih =>
    rw [layout, layoutMembers_eq_map]
    refine enclose_plain (by decide) (by decide) fun t ht => ?_
    obtain ⟨m, hm, rfl⟩ := List.mem_map.mp ht
    refine List.forall_mem_append.mpr ⟨writeString_plain m.1, ?_⟩
    exact List.forall_mem_cons.mpr ⟨by decide, List.forall_mem_cons.mpr ⟨by decide, ih m hm⟩⟩

end Conditions.Json
