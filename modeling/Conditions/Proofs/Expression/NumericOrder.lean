import Conditions.Proofs.Expression.Comparing
import Conditions.Proofs.Number.Numeral
import Conditions.Proofs.Number.Rounding

/-!
# The order of written numbers

Comparing two numerals respects the numbers that they write: rounding never turns the order around,
and it keeps whole numbers up to `2 ^ 53` apart, however they are spelled.
-/

set_option autoImplicit false

namespace Conditions

namespace Decimal

def magnitude (d : Decimal) : ℚ := d.units * 10 ^ d.exponent

theorem magnitude_nonneg (d : Decimal) : 0 ≤ d.magnitude := by
  unfold magnitude
  positivity

theorem value_eq (d : Decimal) : d.value = sign d.negative * d.magnitude := mul_assoc ..

theorem abs_value (d : Decimal) : |d.value| = d.magnitude := by
  rw [value_eq, abs_mul, abs_of_nonneg d.magnitude_nonneg, sign]
  split <;> simp

end Decimal

namespace Binary64

variable {d e : Decimal}

theorem ofDecimal_rounds (d : Decimal) : Rounds d.magnitude (ofDecimal d).code :=
  codeOfDecimal_rounds ..

theorem rank_ofDecimal (d : Decimal) :
    (ofDecimal d).rank = Decimal.sign d.negative * (ofDecimal d).code := by
  unfold rank Decimal.sign
  change (if d.negative = true then _ else _) = _
  split <;> simp

theorem rank_mono (h : d.value ≤ e.value) : (ofDecimal d).rank ≤ (ofDecimal e).rank := by
  have hd := ofDecimal_rounds d
  have he := ofDecimal_rounds e
  have hdpos := d.magnitude_nonneg
  have hepos := e.magnitude_nonneg
  rw [d.value_eq, e.value_eq] at h
  rw [rank_ofDecimal, rank_ofDecimal]
  cases hdsign : d.negative with
  | false =>
    cases hesign : e.negative with
    | false =>
      simp only [hdsign, hesign, Decimal.sign, Bool.false_eq_true, if_false, Int.cast_one,
        one_mul] at h ⊢
      exact_mod_cast hd.mono he h
    | true =>
      -- both numbers are zero
      simp only [hdsign, hesign, Decimal.sign, Bool.false_eq_true, if_false, if_true, Int.cast_one,
        Int.cast_neg, one_mul, neg_one_mul] at h ⊢
      have hdzero := hd.mono rounds_zero (by linarith)
      have hezero := he.mono rounds_zero (by linarith)
      omega
  | true =>
    cases hesign : e.negative with
    | false =>
      simp only [Decimal.sign, Bool.false_eq_true, if_false, if_true, one_mul, neg_one_mul]
      omega
    | true =>
      simp only [hdsign, hesign, Decimal.sign, if_true, Int.cast_one, Int.cast_neg,
        neg_one_mul, neg_le_neg_iff] at h ⊢
      exact_mod_cast he.mono hd h

section
variable {m n : ℤ}

theorem magnitude_of_whole (h : d.value = m) : d.magnitude = (m.natAbs : ℕ) := by
  rw [← d.abs_value, h, Nat.cast_natAbs, Int.cast_abs]

theorem sign_mul_natAbs (h : d.value = m) : m = Decimal.sign d.negative * m.natAbs := by
  rw [← Int.cast_inj (α := ℚ), Int.cast_mul, Int.cast_natCast, ← magnitude_of_whole h, ← h]
  exact d.value_eq

theorem rank_strict (hd : d.value = m) (he : e.value = n) (hm : |m| ≤ 2 ^ 53)
    (hn : |n| ≤ 2 ^ 53) (h : m < n) : (ofDecimal d).rank < (ofDecimal e).rank := by
  rw [Int.abs_eq_natAbs] at hm hn
  have hmbound : m.natAbs ≤ 2 ^ 53 := by exact_mod_cast hm
  have hnbound : n.natAbs ≤ 2 ^ 53 := by exact_mod_cast hn
  have hdcode : Rounds (m.natAbs : ℕ) (ofDecimal d).code :=
    magnitude_of_whole hd ▸ ofDecimal_rounds d
  have hecode : Rounds (n.natAbs : ℕ) (ofDecimal e).code :=
    magnitude_of_whole he ▸ ofDecimal_rounds e
  have hzero : Rounds (0 : ℕ) 0 := by exact_mod_cast rounds_zero
  have hmsign := sign_mul_natAbs hd
  have hnsign := sign_mul_natAbs he
  rw [rank_ofDecimal, rank_ofDecimal]
  cases hd' : d.negative with
  | false =>
    cases he' : e.negative with
    | false =>
      simp only [hd', he', Decimal.sign, Bool.false_eq_true, if_false, one_mul] at hmsign hnsign ⊢
      exact_mod_cast hdcode.lt hecode (by omega) hnbound
    | true =>
      simp only [hd', he', Decimal.sign, Bool.false_eq_true, if_false, if_true] at hmsign hnsign
      omega
  | true =>
    cases he' : e.negative with
    | false =>
      simp only [hd', he', Decimal.sign, Bool.false_eq_true, if_false, if_true] at hmsign hnsign ⊢
      -- not both numbers are zero
      rcases Nat.eq_zero_or_pos n.natAbs with hnzero | hnpos
      · have := hzero.lt hdcode (by omega) hmbound
        omega
      · have := hzero.lt hecode hnpos hnbound
        omega
    | true =>
      simp only [hd', he', Decimal.sign, if_true] at hmsign hnsign ⊢
      have := hecode.lt hdcode (by omega) hmbound
      omega

end

end Binary64

namespace Expression

variable {l r : Text} {x y : ℚ}

theorem place_of_writes (h : Writes (Text.strip l) x) :
    ∃ d : Decimal, d.value = x ∧ place? l = some (Binary64.ofDecimal d).rank := by
  obtain ⟨d, hread, hvalue⟩ := writes_iff.mp h
  exact ⟨d, hvalue, by rw [place?, number?, hread]; rfl⟩

/-- Numerals compare as the numbers that they write, as far as rounding can tell these apart: what
is not greater is never taken for greater, and whole numbers up to `2 ^ 53` compare exactly. -/
theorem compare_respects_values (hl : Writes (Text.strip l) x) (hr : Writes (Text.strip r) y) :
    (x ≤ y → compare l r .lessEq = true) ∧
    (x = y → compare l r .lessEq = true ∧ compare l r .greaterEq = true) ∧
    (compare l r .greater = true → y < x) ∧
    ∀ m n : ℤ, x = m → y = n → |m| ≤ 2 ^ 53 → |n| ≤ 2 ^ 53 →
      compare l r .less = decide (m < n) ∧ compare l r .lessEq = decide (m ≤ n) ∧
        compare l r .greater = decide (m > n) ∧ compare l r .greaterEq = decide (m ≥ n) := by
  obtain ⟨d, rfl, hd⟩ := place_of_writes hl
  obtain ⟨e, rfl, he⟩ := place_of_writes hr
  have hplaces : places? l r = some ((Binary64.ofDecimal d).rank, (Binary64.ofDecimal e).rank) :=
    places?_eq_some.mpr ⟨hd, he⟩
  have hcompare : ∀ c : Comparator, c.isOrdering = true →
      compare l r c = c.ofPlaces ((Binary64.ofDecimal d).rank, (Binary64.ofDecimal e).rank) := by
    intro c hc
    rw [compare_ordering hc, hplaces, Option.any_some]
  simp only [hcompare .less rfl, hcompare .lessEq rfl, hcompare .greater rfl,
    hcompare .greaterEq rfl, Comparator.ofPlaces, decide_eq_true_eq, decide_eq_decide]
  refine ⟨Binary64.rank_mono, fun h => ⟨Binary64.rank_mono h.le, Binary64.rank_mono h.ge⟩,
    fun h => lt_of_not_ge fun hle => ?_, fun m n hm hn hmbound hnbound => ?_⟩
  · exact absurd (Binary64.rank_mono hle) (not_le_of_gt h)
  · have hlt : m < n → _ := Binary64.rank_strict hm hn hmbound hnbound
    have hgt : n < m → _ := Binary64.rank_strict hn hm hnbound hmbound
    have heq : m = n → (Binary64.ofDecimal d).rank = (Binary64.ofDecimal e).rank := by
      rintro rfl
      exact le_antisymm (Binary64.rank_mono (hm.trans hn.symm).le)
        (Binary64.rank_mono (hn.trans hm.symm).le)
    omega

/-- `2 ^ 53` and its predecessor, with a fraction of zeros and with an exponent. -/
theorem compare_respects_largest :
    let l := "  9007199254740992.00 ".toList
    let r := "+.9007199254740991E16".toList
    Writes (Text.strip l) 9007199254740992 ∧ Writes (Text.strip r) 9007199254740991 ∧
      compare l r .greater = true ∧ compare l r .lessEq = false := by
  intro l r
  have hl : Writes (Text.strip l) 9007199254740992 :=
    writes_iff.mpr ⟨⟨false, 900719925474099200, -2⟩, by decide +kernel, by
      norm_num [Decimal.value, Decimal.sign]⟩
  have hr : Writes (Text.strip r) 9007199254740991 :=
    writes_iff.mpr ⟨⟨false, 9007199254740991, 0⟩, by decide +kernel, by
      norm_num [Decimal.value, Decimal.sign]⟩
  obtain ⟨-, -, -, hwhole⟩ := compare_respects_values hl hr
  obtain ⟨-, hle, hgt, -⟩ := hwhole 9007199254740992 9007199254740991 (by norm_num) (by norm_num)
    (by decide) (by decide)
  exact ⟨hl, hr, hgt, hle⟩

-- above `2 ^ 53` a greater number may be rounded to the same place
example : compare "9007199254740993".toList "9007199254740992".toList .lessEq = true := by
  decide +kernel

end Expression

end Conditions
