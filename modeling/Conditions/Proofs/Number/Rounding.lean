import Conditions.Number.Binary64
import Mathlib.Algebra.Order.Field.Basic
import Mathlib.Algebra.Order.Field.Power
import Mathlib.Data.Rat.Cast.Order
import Mathlib.Tactic.FieldSimp
import Mathlib.Tactic.Linarith
import Mathlib.Tactic.Positivity
import Mathlib.Tactic.Ring

/-!
# Rounding magnitudes

The code of a magnitude is the nearest whole number of units, the even one in a halfway case, on top
of what the exponent of the unit contributes. A larger magnitude never has a smaller code, and whole
numbers up to `2 ^ 53` have codes of their own.
-/

set_option autoImplicit false

namespace Conditions.Binary64

variable {x y : ℚ}

structure Nearest (x : ℚ) (n : ℕ) : Prop where
  near : |x - n| ≤ 1 / 2
  even : |x - n| = 1 / 2 → n % 2 = 0

namespace Nearest

variable {m n : ℕ}

theorem refl (n : ℕ) : Nearest n n := by
  constructor
  · norm_num
  · intro hhalf
    norm_num at hhalf

/-- Between two nearest numbers in the wrong order only one halfway case would fit, and it has one
even neighbour. -/
theorem mono (hm : Nearest x m) (hn : Nearest y n) (h : x ≤ y) : m ≤ n := by
  refine Nat.le_of_not_lt fun hlt => ?_
  have hnext : (n : ℚ) + 1 ≤ m := by exact_mod_cast hlt
  obtain ⟨hlow, -⟩ := abs_le.mp hm.near
  obtain ⟨-, hhigh⟩ := abs_le.mp hn.near
  have hxm : x - m = -(1 / 2) := by linarith
  have hyn : y - n = 1 / 2 := by linarith
  have hsucc : (m : ℚ) = n + 1 := by linarith
  have hm' := hm.even (by rw [hxm]; norm_num)
  have hn' := hn.even (by rw [hyn]; norm_num)
  have hsucc' : m = n + 1 := by exact_mod_cast hsucc
  omega

theorem unique (hm : Nearest x m) (hn : Nearest x n) : m = n :=
  Nat.le_antisymm (hm.mono hn le_rfl) (hn.mono hm le_rfl)

end Nearest

theorem nearest_of_rest (floor : ℕ) {rest : ℚ} (hpos : 0 ≤ rest) (hone : rest < 1) :
    (rest < 1 / 2 → Nearest (floor + rest) floor) ∧
      (1 / 2 < rest → Nearest (floor + rest) (floor + 1)) ∧
        (rest = 1 / 2 → Nearest (floor + rest) (floor + floor % 2)) := by
  refine ⟨fun hbelow => ?_, fun habove => ?_, fun hhalf => ?_⟩
  · have hdist : |(floor + rest : ℚ) - floor| = rest := by
      rw [add_sub_cancel_left, abs_of_nonneg hpos]
    exact ⟨by rw [hdist]; exact hbelow.le, fun h => absurd (hdist ▸ h) hbelow.ne⟩
  · have hdist : |(floor + rest : ℚ) - (floor + 1 : ℕ)| = 1 - rest := by
      rw [Nat.cast_succ, add_sub_add_left_eq_sub, abs_sub_comm, abs_of_pos (sub_pos.mpr hone)]
    refine ⟨by rw [hdist]; linarith, fun h => ?_⟩
    rw [hdist] at h
    linarith
  · rcases Nat.mod_two_eq_zero_or_one floor with heven | hodd
    · rw [heven, hhalf, add_zero]
      exact ⟨by rw [add_sub_cancel_left]; norm_num, fun _ => heven⟩
    · rw [hodd, hhalf]
      refine ⟨?_, fun _ => by omega⟩
      rw [Nat.cast_succ, add_sub_add_left_eq_sub]
      norm_num

theorem roundDiv_nearest (num : ℕ) {den : ℕ} (hden : 0 < den) :
    Nearest (num / den) (roundDiv num den) := by
  have hpos : (0 : ℚ) < den := by exact_mod_cast hden
  have hsplit : (num : ℚ) / den = (num / den : ℕ) + (num % den : ℕ) / den := by
    rw [div_eq_iff hpos.ne', add_mul, div_mul_cancel₀ _ hpos.ne', mul_comm]
    exact_mod_cast (Nat.div_add_mod num den).symm
  have hlow : (0 : ℚ) ≤ (num % den : ℕ) / den := by positivity
  have hhigh : ((num % den : ℕ) : ℚ) / den < 1 := by
    rw [div_lt_one hpos]
    exact_mod_cast Nat.mod_lt num hden
  obtain ⟨hbelow, habove, hhalf⟩ := nearest_of_rest (num / den) hlow hhigh
  rw [hsplit]
  unfold roundDiv
  dsimp only
  split_ifs with hlt hgt
  · refine hbelow ?_
    rw [div_lt_div_iff₀ hpos two_pos]
    exact_mod_cast (by omega : num % den * 2 < 1 * den)
  · refine habove ?_
    rw [div_lt_div_iff₀ two_pos hpos]
    exact_mod_cast (by omega : 1 * den < num % den * 2)
  · refine hhalf ?_
    rw [div_eq_div_iff hpos.ne' two_ne_zero]
    exact_mod_cast (by omega : num % den * 2 = 1 * den)

/-- The unit `2 ^ q` in which a magnitude is counted: it makes less than `2 ^ 53` of it, and at
least `2 ^ 52` unless it is the least unit there is. -/
structure CountedIn (x : ℚ) (q : ℤ) : Prop where
  least : -1074 ≤ q
  below : x < 2 ^ (q + 53)
  above : -1074 < q → 2 ^ (q + 52) ≤ x

theorem CountedIn.mono {q r : ℤ} (hq : CountedIn x q) (hr : CountedIn y r) (h : x ≤ y) :
    q ≤ r := by
  rcases hq.least.eq_or_lt with hleast | hlt
  · exact hleast ▸ hr.least
  · have hpow : (2 : ℚ) ^ (q + 52) < 2 ^ (r + 53) :=
      ((hq.above hlt).trans h).trans_lt hr.below
    have := (zpow_lt_zpow_iff_right₀ one_lt_two).mp hpow
    omega

theorem cast_pow2 (n : ℕ) : (pow2 n : ℚ) = 2 ^ n := Nat.cast_pow ..

theorem pow2_pos (n : ℕ) : 0 < pow2 n := Nat.pow_pos two_pos

theorem zpow_toNat {q : ℤ} (h : 0 ≤ q) : (2 : ℚ) ^ q.toNat = 2 ^ q := by
  rw [← zpow_natCast, Int.toNat_of_nonneg h]

theorem ratio_in_units (num den : ℕ) (q : ℤ) :
    ((if q < 0 then num * pow2 (-q).toNat else num : ℕ) : ℚ) /
      (if q < 0 then den else den * pow2 q.toNat : ℕ) = num / den / 2 ^ q := by
  split_ifs with hq
  · rw [Nat.cast_mul, cast_pow2, zpow_toNat (by omega), zpow_neg]
    field_simp
  · rw [Nat.cast_mul, cast_pow2, zpow_toNat (by omega), div_div]

theorem log2_bounds {n : ℕ} (hn : 0 < n) :
    (2 : ℚ) ^ (n.log2 : ℤ) ≤ n ∧ (n : ℚ) < 2 ^ ((n.log2 : ℤ) + 1) := by
  constructor
  · rw [zpow_natCast]
    exact_mod_cast Nat.log2_self_le hn.ne'
  · have hlt : n < 2 ^ (n.log2 + 1) := Nat.lt_log2_self
    exact_mod_cast hlt

theorem ratio_bounds {num den : ℕ} (hnum : 0 < num) (hden : 0 < den) :
    (2 : ℚ) ^ ((num.log2 : ℤ) - den.log2 - 1) ≤ num / den ∧
      (num : ℚ) / den < 2 ^ ((num.log2 : ℤ) - den.log2 + 1) := by
  have hden' : (0 : ℚ) < den := by exact_mod_cast hden
  obtain ⟨hnumLow, hnumHigh⟩ := log2_bounds hnum
  obtain ⟨hdenLow, hdenHigh⟩ := log2_bounds hden
  constructor
  · rw [le_div_iff₀ hden']
    calc (2 : ℚ) ^ ((num.log2 : ℤ) - den.log2 - 1) * den
        ≤ 2 ^ ((num.log2 : ℤ) - den.log2 - 1) * 2 ^ ((den.log2 : ℤ) + 1) := by gcongr
      _ = 2 ^ (num.log2 : ℤ) := by
          rw [← zpow_add₀ two_ne_zero]
          congr 1
          omega
      _ ≤ num := hnumLow
  · rw [div_lt_iff₀ hden']
    calc (num : ℚ) < 2 ^ ((num.log2 : ℤ) + 1) := hnumHigh
      _ = 2 ^ ((num.log2 : ℤ) - den.log2 + 1) * 2 ^ (den.log2 : ℤ) := by
          rw [← zpow_add₀ two_ne_zero]
          congr 1
          omega
      _ ≤ 2 ^ ((num.log2 : ℤ) - den.log2 + 1) * den := by gcongr

/-- Whether a fraction makes `2 ^ 53` units of `2 ^ q` or more. -/
theorem fills_iff (num : ℕ) {den : ℕ} (hden : 0 < den) (q : ℤ) :
    (if q < 0 then den else den * pow2 q.toNat) * pow2 53 ≤
      (if q < 0 then num * pow2 (-q).toNat else num) ↔ (2 : ℚ) ^ (q + 53) ≤ num / den := by
  have hunit : (0 : ℚ) < (if q < 0 then den else den * pow2 q.toNat : ℕ) := by
    split_ifs
    · exact_mod_cast hden
    · exact_mod_cast Nat.mul_pos hden (pow2_pos _)
  rw [zpow_add₀ two_ne_zero, mul_comm ((2 : ℚ) ^ q), ← le_div_iff₀ (zpow_pos two_pos q),
    ← ratio_in_units, le_div_iff₀ hunit, ← Nat.cast_le (α := ℚ), Nat.cast_mul _ (pow2 53),
    cast_pow2, mul_comm]
  norm_num

theorem CountedIn.clamp {q : ℤ} (habove : 2 ^ (q + 52) ≤ x) (hbelow : x < 2 ^ (q + 53)) :
    CountedIn x (max (-1074) q) := by
  refine ⟨le_max_left _ _, hbelow.trans_le ?_, fun hlt => ?_⟩
  · exact zpow_le_zpow_right₀ one_le_two (by omega)
  · rwa [max_eq_right (by omega)]

theorem unitExponent_countedIn {num den : ℕ} (hnum : 0 < num) (hden : 0 < den) :
    CountedIn (num / den) (unitExponent num den) := by
  obtain ⟨hlow, hhigh⟩ := ratio_bounds hnum hden
  unfold unitExponent
  dsimp only
  generalize (num.log2 : ℤ) - den.log2 = difference at hlow hhigh ⊢
  rw [show difference - 1 = difference - 53 + 52 by ring] at hlow
  rw [show difference + 1 = difference - 53 + 1 + 53 by ring] at hhigh
  simp only [fills_iff num hden]
  split_ifs with hfull
  · refine .clamp ?_ hhigh
    rwa [add_assoc, show (1 : ℤ) + 52 = 53 from rfl]
  · exact .clamp hlow (lt_of_not_ge hfull)

/-- The code of a magnitude: what its unit and the nearest whole number of units come to, as long as
there is a finite number. -/
def Rounds (x : ℚ) (code : ℕ) : Prop :=
  ∃ q m, CountedIn x q ∧ Nearest (x / 2 ^ q) m ∧
    code = min infinityCode ((q + 1074).toNat * pow2 52 + m)

theorem rounds_zero : Rounds 0 0 := by
  refine ⟨-1074, 0, ⟨le_rfl, by positivity, fun h => absurd h (lt_irrefl _)⟩, ?_, rfl⟩
  rw [zero_div]
  exact_mod_cast Nearest.refl 0

theorem codeOfRatio_rounds (num : ℕ) {den : ℕ} (hden : 0 < den) :
    Rounds (num / den) (codeOfRatio num den) := by
  unfold codeOfRatio
  split_ifs with hzero
  · rw [hzero, Nat.cast_zero, zero_div]
    exact rounds_zero
  · refine ⟨_, _, unitExponent_countedIn (Nat.pos_of_ne_zero hzero) hden, ?_, rfl⟩
    have hratio := ratio_in_units num den (unitExponent num den)
    rw [← hratio]
    split_ifs
    · exact roundDiv_nearest _ hden
    · exact roundDiv_nearest _ (Nat.mul_pos hden (pow2_pos _))

section
variable {q : ℤ} {m : ℕ} (hq : CountedIn x q) (hm : Nearest (x / 2 ^ q) m)
include hq hm

theorem CountedIn.count_le : m ≤ pow2 53 := by
  refine hm.mono (Nearest.refl (pow2 53)) ?_
  rw [div_le_iff₀ (zpow_pos two_pos q), cast_pow2, ← zpow_natCast, ← zpow_add₀ two_ne_zero,
    add_comm]
  exact hq.below.le

theorem CountedIn.le_count (hlt : -1074 < q) : pow2 52 ≤ m := by
  refine (Nearest.refl (pow2 52)).mono hm ?_
  rw [le_div_iff₀ (zpow_pos two_pos q), cast_pow2, ← zpow_natCast, ← zpow_add₀ two_ne_zero,
    add_comm]
  exact hq.above hlt

end

theorem Rounds.mono {c d : ℕ} (hc : Rounds x c) (hd : Rounds y d) (h : x ≤ y) : c ≤ d := by
  obtain ⟨q, m, hq, hm, rfl⟩ := hc
  obtain ⟨r, n, hr, hn, rfl⟩ := hd
  refine min_le_min_left _ ?_
  rcases (hq.mono hr h).eq_or_lt with rfl | hlt
  · have hcount : m ≤ n := hm.mono hn (div_le_div_of_nonneg_right h (zpow_pos two_pos q).le)
    exact Nat.add_le_add_left hcount _
  · -- a larger unit makes up for the difference of the counts
    have hleast := hq.least
    have hcount := hq.count_le hm
    have hcount' := hr.le_count hn (by omega)
    simp only [show pow2 53 = 2 * pow2 52 from rfl] at hcount
    generalize pow2 52 = unit at hcount hcount' ⊢
    calc (q + 1074).toNat * unit + m ≤ ((q + 1074).toNat + 1) * unit + unit := by
          rw [Nat.add_mul]
          omega
      _ ≤ (r + 1074).toNat * unit + n :=
          Nat.add_le_add (Nat.mul_le_mul_right unit (by omega)) hcount'

theorem CountedIn.nonpos {n : ℕ} {q : ℤ} (hq : CountedIn n q) (hn : n < 2 ^ 53) : q ≤ 0 := by
  refine le_of_not_gt fun hpos => ?_
  have hle := hq.above (by omega)
  have hlt : (n : ℚ) < 2 ^ (53 : ℤ) := by exact_mod_cast hn
  have := (zpow_lt_zpow_iff_right₀ one_lt_two).mp (hle.trans_lt hlt)
  omega

theorem Nearest.eq_of_whole {n m : ℕ} {q : ℤ} (hm : Nearest ((n : ℚ) / 2 ^ q) m) (hq : q ≤ 0) :
    (m : ℚ) = n / 2 ^ q := by
  have hwhole : (n : ℚ) / 2 ^ q = (n * pow2 (-q).toNat : ℕ) := by
    rw [Nat.cast_mul, cast_pow2, zpow_toNat (by omega), zpow_neg, div_eq_mul_inv]
  rw [hwhole] at hm ⊢
  exact congrArg Nat.cast (hm.unique (.refl _))

theorem Rounds.lt {m n c d : ℕ} (hc : Rounds m c) (hd : Rounds n d) (h : m < n)
    (hn : n ≤ 2 ^ 53) : c < d := by
  obtain ⟨q, k, hq, hk, rfl⟩ := hc
  obtain ⟨r, l, hr, hl, rfl⟩ := hd
  have hpos : (0 : ℚ) < 2 ^ q := zpow_pos two_pos q
  have hnonpos := hq.nonpos (h.trans_le hn)
  have hleast := hq.least
  have hcount := hk.eq_of_whole hnonpos
  have hbound : k < 2 ^ 53 := by
    have hlt : (k : ℚ) < 2 ^ (53 : ℤ) := by
      rw [hcount, div_lt_iff₀ hpos, ← zpow_add₀ two_ne_zero, add_comm]
      exact hq.below
    exact_mod_cast hlt
  have hcast : (m : ℚ) ≤ n := by exact_mod_cast h.le
  have hcodes : (q + 1074).toNat * pow2 52 + k < (r + 1074).toNat * pow2 52 + l := by
    rcases (hq.mono hr hcast).eq_or_lt with rfl | hlt
    · have hcount' := hl.eq_of_whole hnonpos
      have hkl : (k : ℚ) < l := by
        rw [hcount, hcount', div_lt_div_iff_of_pos_right hpos]
        exact_mod_cast h
      exact Nat.add_lt_add_left (by exact_mod_cast hkl) _
    · have hcount' := hr.le_count hl (by omega)
      simp only [show pow2 52 = 4503599627370496 from rfl] at hcount' ⊢
      omega
  have hfinite : (q + 1074).toNat * pow2 52 + k < infinityCode := by
    simp only [infinityCode, show pow2 52 = 4503599627370496 from rfl]
    omega
  rw [min_eq_right hfinite.le]
  exact lt_min hfinite hcodes

theorem Rounds.large {c : ℕ} (hc : Rounds x c) (hx : 2 ^ (1024 : ℤ) ≤ x) : c = infinityCode := by
  obtain ⟨q, m, hq, hm, rfl⟩ := hc
  have hlt := (zpow_lt_zpow_iff_right₀ one_lt_two).mp (hx.trans_lt hq.below)
  have hcount := hq.le_count hm (by omega)
  rw [min_eq_left]
  simp only [infinityCode, show pow2 52 = 4503599627370496 from rfl] at hcount ⊢
  omega

theorem Rounds.small {c : ℕ} (hc : Rounds x c) (hx : x < 2 ^ (-1075 : ℤ)) : c = 0 := by
  obtain ⟨q, m, hq, hm, rfl⟩ := hc
  have hle : q ≤ -1074 := by
    refine le_of_not_gt fun hlt => ?_
    have := (zpow_lt_zpow_iff_right₀ one_lt_two).mp ((hq.above hlt).trans_lt hx)
    omega
  obtain rfl : q = -1074 := le_antisymm hle hq.least
  have hhalf : x / 2 ^ (-1074 : ℤ) < 1 / 2 := by
    rw [div_lt_iff₀ (zpow_pos two_pos _)]
    refine hx.trans_eq ?_
    rw [show (-1075 : ℤ) = -1 + -1074 from rfl, zpow_add₀ two_ne_zero, zpow_neg_one, one_div]
  obtain ⟨hlow, -⟩ := abs_le.mp hm.near
  have hm0 : (m : ℚ) < 1 := by linarith
  obtain rfl : m = 0 := by
    have : m < 1 := by exact_mod_cast hm0
    omega
  rfl

theorem digitCount_bounds {n : ℕ} (hn : n ≠ 0) :
    (10 : ℚ) ^ ((Decimal.digitCount n : ℤ) - 1) ≤ n ∧
      (n : ℚ) < 10 ^ (Decimal.digitCount n : ℤ) := by
  rw [Decimal.digitCount, if_neg hn]
  generalize hlength : (Nat.toDigits 10 n).length = k
  have hpos : 0 < k := hlength ▸ Nat.length_toDigits_pos
  constructor
  · obtain ⟨j, rfl⟩ := Nat.exists_eq_succ_of_ne_zero hpos.ne'
    have hle : 10 ^ j ≤ n := by
      rcases Nat.eq_zero_or_pos j with rfl | hj
      · exact Nat.pos_of_ne_zero hn
      · refine Nat.le_of_not_lt fun hlt => ?_
        have := (Nat.length_toDigits_le_iff (by norm_num) hj).mpr hlt
        omega
    rw [Nat.cast_succ, add_sub_cancel_right, zpow_natCast]
    exact_mod_cast hle
  · rw [zpow_natCast]
    exact_mod_cast (Nat.length_toDigits_le_iff (by norm_num) hpos).mp hlength.le

theorem decimal_bounds {units : ℕ} (hunits : units ≠ 0) (exponent : ℤ) :
    (10 : ℚ) ^ ((Decimal.digitCount units : ℤ) - 1 + exponent) ≤ units * 10 ^ exponent ∧
      (units : ℚ) * 10 ^ exponent < 10 ^ ((Decimal.digitCount units : ℤ) + exponent) := by
  obtain ⟨hlow, hhigh⟩ := digitCount_bounds hunits
  have hten : (0 : ℚ) < 10 ^ exponent := zpow_pos (by norm_num) _
  rw [zpow_add₀ (by norm_num), zpow_add₀ (by norm_num)]
  exact ⟨mul_le_mul_of_nonneg_right hlow hten.le, mul_lt_mul_of_pos_right hhigh hten⟩

theorem cast_pow10 {k : ℤ} (h : 0 ≤ k) : (pow10 k.toNat : ℚ) = 10 ^ k := by
  rw [pow10, Nat.pow_eq, Nat.cast_pow, ← zpow_natCast, Int.toNat_of_nonneg h]
  rfl

theorem codeOfFraction_rounds (units : ℕ) (exponent : ℤ) :
    Rounds (units * 10 ^ exponent)
      (if exponent < 0 then codeOfRatio units (pow10 (-exponent).toNat)
        else codeOfRatio (units * pow10 exponent.toNat) 1) := by
  split_ifs with hneg
  · have hvalue : (units : ℚ) * 10 ^ exponent = units / (pow10 (-exponent).toNat : ℕ) := by
      rw [cast_pow10 (by omega), zpow_neg, div_inv_eq_mul]
    rw [hvalue]
    exact codeOfRatio_rounds _ (Nat.pow_pos (by norm_num))
  · have hvalue : (units : ℚ) * 10 ^ exponent =
        (units * pow10 exponent.toNat : ℕ) / (1 : ℕ) := by
      rw [Nat.cast_mul, cast_pow10 (by omega), Nat.cast_one, div_one]
    rw [hvalue]
    exact codeOfRatio_rounds _ one_pos

theorem codeOfDecimal_rounds (units : ℕ) (exponent : ℤ) :
    Rounds (units * 10 ^ exponent) (codeOfDecimal units exponent) := by
  by_cases hzero : units = 0
  · rw [codeOfDecimal, if_pos hzero, hzero, Nat.cast_zero, zero_mul]
    exact rounds_zero
  have hrounds := codeOfFraction_rounds units exponent
  obtain ⟨hlow, hhigh⟩ := decimal_bounds hzero exponent
  rw [codeOfDecimal, if_neg hzero]
  split_ifs with hlarge hsmall hneg
  · -- past the largest number
    have hx : (2 : ℚ) ^ (1024 : ℤ) ≤ units * 10 ^ exponent := by
      calc (2 : ℚ) ^ (1024 : ℤ) ≤ 10 ^ (309 : ℤ) := by
            exact_mod_cast (by decide +kernel : 2 ^ 1024 ≤ 10 ^ 309)
        _ ≤ 10 ^ ((Decimal.digitCount units : ℤ) - 1 + exponent) :=
            zpow_le_zpow_right₀ (by norm_num) (by omega)
        _ ≤ units * 10 ^ exponent := hlow
    exact hrounds.large hx ▸ hrounds
  · -- less than half the smallest number
    have hx : (units : ℚ) * 10 ^ exponent < 2 ^ (-1075 : ℤ) := by
      calc (units : ℚ) * 10 ^ exponent
          < 10 ^ ((Decimal.digitCount units : ℤ) + exponent) := hhigh
        _ ≤ 10 ^ (-324 : ℤ) := zpow_le_zpow_right₀ (by norm_num) (by omega)
        _ ≤ 2 ^ (-1075 : ℤ) := by
            rw [zpow_neg, zpow_neg]
            refine inv_anti₀ (zpow_pos two_pos _) ?_
            exact_mod_cast (by decide +kernel : 2 ^ 1075 ≤ 10 ^ 324)
    exact hrounds.small hx ▸ hrounds
  · rwa [if_pos hneg] at hrounds
  · rwa [if_neg hneg] at hrounds

end Conditions.Binary64
