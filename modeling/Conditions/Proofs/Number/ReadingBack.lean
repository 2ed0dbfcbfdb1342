import Conditions.Number.Shortest
import Conditions.Proofs.Number.Numeral
import Conditions.Proofs.Number.Rounding

/-!
# Numbers read back

The shortest text of a finite number is read as the same number again. The magnitudes that round to
a number form a cell around it; a decimal is taken only if it lies in the cell, and with seventeen
digits the nearest one always does. The layouts write the decimal itself.
-/

set_option autoImplicit false

namespace Conditions

theorem zpow_eq_div (b : ℕ) (p : ℤ) :
    (b : ℚ) ^ p = ((if p < 0 then 1 else b ^ p.natAbs : ℕ) : ℚ) /
      (if p < 0 then b ^ p.natAbs else 1 : ℕ) := by
  split_ifs with hp
  · rw [Nat.cast_one, one_div, Nat.cast_pow, ← zpow_natCast, ← zpow_neg]
    congr 1
    omega
  · rw [Nat.cast_one, div_one, Nat.cast_pow, ← zpow_natCast]
    congr 1
    omega

theorem Decimal.splitSign_signed {t : Text} (h : ∀ c ∈ t.head?, c ≠ '+' ∧ c ≠ '-')
    (negative : Bool) :
    Decimal.splitSign (if negative then '-' :: t else t) = (negative, t) := by
  cases negative with
  | true => rfl
  | false =>
    obtain ⟨negative, hsplit, hsign⟩ := Decimal.splitSign_append .absent h
    cases negative with
    | true => cases hsign
    | false => exact hsplit

namespace Binary64

structure Counts (code m : ℕ) (q : ℤ) : Prop where
  least : -1074 ≤ q
  below : m < 2 ^ 53
  above : -1074 < q → 2 ^ 52 ≤ m
  code : code = (q + 1074).toNat * 2 ^ 52 + m

theorem parts_counts (code : ℕ) : Counts code (parts code).1 (parts code).2 := by
  unfold parts
  simp only [show pow2 52 = 2 ^ 52 from rfl]
  split_ifs with hsmall
  · exact ⟨le_rfl, by omega, fun h => absurd h (lt_irrefl _), by simp⟩
  · exact ⟨by omega, by omega, fun _ => by omega, by omega⟩

def size (code : ℕ) : ℚ := (parts code).1 * 2 ^ (parts code).2

theorem ratio_size (code : ℕ) :
    0 < (ratio code).2 ∧ ((ratio code).1 : ℚ) / (ratio code).2 = size code := by
  unfold ratio size
  generalize parts code = p
  obtain ⟨m, q⟩ := p
  dsimp only
  split_ifs with hneg
  · refine ⟨pow2_pos _, ?_⟩
    rw [cast_pow2, zpow_toNat (by omega), zpow_neg, div_inv_eq_mul]
  · refine ⟨one_pos, ?_⟩
    rw [Nat.cast_one, div_one, Nat.cast_mul, cast_pow2, zpow_toNat (by omega)]

theorem parts_pos {code : ℕ} (h : code ≠ 0) : 0 < (parts code).1 := by
  have hcounts := parts_counts code
  refine Nat.pos_of_ne_zero fun hzero => h ?_
  have hq : (parts code).2 = -1074 := by
    refine le_antisymm (le_of_not_gt fun hlt => ?_) hcounts.least
    have := hcounts.above hlt
    omega
  rw [hcounts.code, hzero, hq]
  rfl

theorem size_pos {code : ℕ} (h : code ≠ 0) : 0 < size code :=
  mul_pos (by exact_mod_cast parts_pos h) (zpow_pos two_pos _)

/-- Half a unit to either side, and the end itself only from an even count. -/
theorem Counts.rounds {code m : ℕ} {q : ℤ} {x : ℚ} (h : Counts code m q)
    (hfinite : code < infinityCode) (hhigh : x ≤ (m + 1 / 2) * 2 ^ q)
    (hlow : (m - 1 / 2) * 2 ^ q ≤ x)
    (heven : x = (m + 1 / 2) * 2 ^ q ∨ x = (m - 1 / 2) * 2 ^ q → m % 2 = 0)
    (hfull : -1074 < q → (2 : ℚ) ^ (q + 52) ≤ x) : Rounds x code := by
  have hunit : (0 : ℚ) < 2 ^ q := zpow_pos two_pos q
  have hm : (m : ℚ) + 1 ≤ 2 ^ (53 : ℤ) := by exact_mod_cast h.below
  refine ⟨q, m, ⟨h.least, ?_, hfull⟩, ⟨?_, fun hhalf => heven ?_⟩, ?_⟩
  · rw [add_comm, zpow_add₀ two_ne_zero]
    exact hhigh.trans_lt (mul_lt_mul_of_pos_right (by linarith) hunit)
  · rw [abs_le, le_sub_iff_add_le, sub_le_iff_le_add, le_div_iff₀ hunit, div_le_iff₀ hunit]
    constructor <;> linarith
  · refine ((abs_eq (by norm_num)).mp hhalf).imp (fun hup => ?_) fun hdown => ?_
    · rw [sub_eq_iff_eq_add', div_eq_iff hunit.ne'] at hup
      exact hup
    · rw [sub_eq_iff_eq_add', div_eq_iff hunit.ne', ← sub_eq_add_neg] at hdown
      exact hdown
  · rw [show pow2 52 = 2 ^ 52 from rfl, ← h.code, min_eq_right hfinite.le]

/-- Below a power of two the units are half as large, and so is what rounds up to it. -/
theorem Counts.rounds_below {code : ℕ} {q : ℤ} {x : ℚ} (h : Counts code (2 ^ 52) q)
    (hfinite : code < infinityCode) (hq : -1074 < q) (hhigh : x < 2 ^ (q + 52))
    (hlow : (2 ^ 52 - 1 / 4) * 2 ^ q ≤ x) : Rounds x code := by
  have hhalf : (2 : ℚ) ^ q = 2 * 2 ^ (q - 1) := by
    rw [← zpow_one_add₀ two_ne_zero]
    congr 1
    omega
  have hunit : (0 : ℚ) < 2 ^ (q - 1) := zpow_pos two_pos _
  have htop : (2 : ℚ) ^ (q + 52) = 2 ^ 53 * 2 ^ (q - 1) := by
    rw [← zpow_natCast, ← zpow_add₀ two_ne_zero]
    congr 1
    push_cast
    omega
  rw [hhalf] at hlow
  refine ⟨q - 1, 2 ^ 53, ⟨by omega, ?_, fun _ => ?_⟩, ⟨?_, fun _ => rfl⟩, ?_⟩
  · rwa [show q - 1 + 53 = q + 52 by omega]
  · refine le_trans ?_ hlow
    rw [show q - 1 + 52 = 52 + (q - 1) by omega, zpow_add₀ two_ne_zero, ← mul_assoc]
    exact mul_le_mul_of_nonneg_right (by norm_num) hunit.le
  · rw [htop] at hhigh
    rw [abs_le, le_sub_iff_add_le, sub_le_iff_le_add, le_div_iff₀ hunit, div_le_iff₀ hunit]
    push_cast
    constructor <;> linarith
  · have hcode : code = (q - 1 + 1074).toNat * pow2 52 + 2 ^ 53 := by
      rw [h.code, show (q + 1074).toNat = (q - 1 + 1074).toNat + 1 by omega, Nat.succ_mul,
        add_assoc]
      rfl
    rw [← hcode, min_eq_right hfinite.le]

theorem Rounds.unique {x : ℚ} {c d : ℕ} (hc : Rounds x c) (hd : Rounds x d) : c = d :=
  Nat.le_antisymm (hc.mono hd le_rfl) (hd.mono hc le_rfl)

end Binary64

namespace Number

open Binary64 (size parts_counts Rounds)

def Cell.Holds (c : Cell) (x : ℚ) : Prop :=
  if c.closed then c.low * 2 ^ c.exponent ≤ x ∧ x ≤ c.high * 2 ^ c.exponent
  else c.low * 2 ^ c.exponent < x ∧ x < c.high * 2 ^ c.exponent

section
variable {a b c d m n : ℕ}

theorem cross_le_iff (hb : 0 < b) (hd : 0 < d) :
    (m : ℚ) * (a / b) ≤ n * (c / d) ↔ m * (d * a) ≤ n * c * b := by
  have hb' : (0 : ℚ) < b := by exact_mod_cast hb
  have hd' : (0 : ℚ) < d := by exact_mod_cast hd
  rw [← mul_div_assoc, ← mul_div_assoc, div_le_div_iff₀ hb' hd', mul_comm d a, ← mul_assoc]
  exact_mod_cast Iff.rfl

theorem le_cross_iff (hb : 0 < b) (hd : 0 < d) :
    (n : ℚ) * (c / d) ≤ m * (a / b) ↔ n * c * b ≤ m * (d * a) := by
  have hb' : (0 : ℚ) < b := by exact_mod_cast hb
  have hd' : (0 : ℚ) < d := by exact_mod_cast hd
  rw [← mul_div_assoc, ← mul_div_assoc, div_le_div_iff₀ hd' hb', mul_comm d a, ← mul_assoc]
  exact_mod_cast Iff.rfl

end

theorem Cell.reads_iff (c : Cell) (digits : ℕ) (power : ℤ) :
    c.reads digits power = true ↔ c.Holds (digits * 10 ^ power) := by
  have hten := zpow_eq_div 10 power
  have htwo := zpow_eq_div 2 c.exponent
  have hpos : ∀ (b : ℕ) (p : ℤ), 0 < b → 0 < if p < 0 then b ^ p.natAbs else 1 :=
    fun b p hb => by split_ifs <;> positivity
  have hten' := hpos 10 power (by norm_num)
  have htwo' := hpos 2 c.exponent two_pos
  rw [Nat.cast_ofNat] at hten htwo
  unfold Cell.reads Cell.Holds
  simp only [show ∀ n, pow10 n = 10 ^ n from fun _ => rfl,
    show ∀ n, pow2 n = 2 ^ n from fun _ => rfl, hten, htwo]
  cases c.closed
  · simp only [Bool.false_eq_true, if_false, Bool.and_eq_true, decide_eq_true_eq]
    exact and_congr (lt_iff_lt_of_le_iff_le (le_cross_iff htwo' hten')).symm
      (lt_iff_lt_of_le_iff_le (cross_le_iff htwo' hten')).symm
  · simp only [if_true, Bool.and_eq_true, decide_eq_true_eq]
    exact and_congr (cross_le_iff htwo' hten').symm (le_cross_iff htwo' hten').symm

def reach (m : ℕ) (q : ℤ) : ℕ := if m = pow2 52 && -1074 < q then 1 else 2

/-- A cell goes half a unit up and half a unit down, or a quarter of one where smaller units
begin. -/
theorem cell_holds_iff {code m : ℕ} {q : ℤ} (hparts : Binary64.parts code = (m, q)) (hm : 0 < m)
    (x : ℚ) :
    (cell code).Holds x ↔ (m - reach m q / 4) * 2 ^ q ≤ x ∧ x ≤ (m + 1 / 2) * 2 ^ q ∧
      ((m - reach m q / 4) * 2 ^ q = x ∨ x = (m + 1 / 2) * 2 ^ q → m % 2 = 0) := by
  have hcell : cell code = ⟨4 * m - reach m q, 4 * m, 4 * m + 2, q - 2, m % 2 == 0⟩ := by
    unfold cell
    rw [hparts]
    rfl
  have hquarter : (2 : ℚ) ^ (q - 2) = 2 ^ q / 4 := by
    rw [zpow_sub₀ two_ne_zero]
    norm_num
  have hreach : reach m q ≤ 4 * m := by
    unfold reach
    split_ifs <;> omega
  have hlow : ((4 * m - reach m q : ℕ) : ℚ) * 2 ^ (q - 2) = (m - reach m q / 4) * 2 ^ q := by
    rw [Nat.cast_sub hreach, hquarter]
    push_cast
    ring
  have hhigh : ((4 * m + 2 : ℕ) : ℚ) * 2 ^ (q - 2) = (m + 1 / 2) * 2 ^ q := by
    rw [hquarter]
    push_cast
    ring
  rw [hcell, Cell.Holds]
  dsimp only
  rw [hlow, hhigh]
  by_cases heven : m % 2 = 0
  · simp [heven]
  · simp only [heven, beq_eq_false_iff_ne.mpr heven, Bool.false_eq_true, if_false, imp_false,
      not_or, lt_iff_le_and_ne, ne_eq]
    tauto

theorem rounds_of_holds {code : ℕ} {x : ℚ} (hzero : code ≠ 0)
    (hfinite : code < Binary64.infinityCode) (h : (cell code).Holds x) : Rounds x code := by
  have hcounts := parts_counts code
  have hm := Binary64.parts_pos hzero
  generalize hparts : Binary64.parts code = p at hcounts hm
  obtain ⟨m, q⟩ := p
  dsimp only at hcounts hm
  have hunit : (0 : ℚ) < 2 ^ q := zpow_pos two_pos q
  obtain ⟨hlow, hhigh, heven⟩ := (cell_holds_iff hparts hm x).mp h
  have hbelow : (m - 1 / 2) * 2 ^ q ≤ (m - reach m q / 4 : ℚ) * 2 ^ q := by
    refine mul_le_mul_of_nonneg_right ?_ hunit.le
    have hreach : (reach m q : ℚ) ≤ 2 := by
      unfold reach
      split_ifs <;> norm_num
    linarith
  by_cases hfull : -1074 < q → (2 : ℚ) ^ (q + 52) ≤ x
  · refine hcounts.rounds hfinite hhigh (hbelow.trans hlow) (fun hend => heven ?_) hfull
    exact hend.symm.imp_left fun hx => le_antisymm hlow (hx.le.trans hbelow)
  · -- only the least mantissa has a cell that reaches below its binade
    push Not at hfull
    obtain ⟨hq, hx⟩ := hfull
    have hleast : m = 2 ^ 52 := by
      refine le_antisymm (Nat.le_of_not_lt fun hlt => ?_) (hcounts.above hq)
      have hnext : (2 : ℚ) ^ (52 : ℤ) + 1 ≤ m := by exact_mod_cast hlt
      refine absurd (hx.trans_le ?_) (lt_irrefl x)
      refine le_trans ?_ (hbelow.trans hlow)
      rw [add_comm, zpow_add₀ two_ne_zero]
      exact mul_le_mul_of_nonneg_right (by linarith) hunit.le
    have hreach : reach m q = 1 := if_pos (by simp [hleast, hq]; rfl)
    rw [hreach, hleast] at hlow
    exact (hleast ▸ hcounts).rounds_below hfinite hq hx (by exact_mod_cast hlow)

theorem pow10_pos (n : ℕ) : 0 < pow10 n := Nat.pow_pos (by norm_num)

theorem cast_pow10_natAbs (p : ℤ) : (pow10 p.natAbs : ℚ) = 10 ^ |p| := by
  rw [← Int.natCast_natAbs, zpow_natCast]
  exact Nat.cast_pow ..

section
variable (num : ℕ) {den : ℕ} (hden : 0 < den) (p : ℤ)
include hden

/-- A fraction in units of `10 ^ p`, without negative powers. -/
theorem ratio_in_tens :
    0 < (if p < 0 then den else den * pow10 p.natAbs) ∧
      ((if p < 0 then num * pow10 p.natAbs else num : ℕ) : ℚ) /
        (if p < 0 then den else den * pow10 p.natAbs : ℕ) = num / den / 10 ^ p := by
  split_ifs with hp
  · refine ⟨hden, ?_⟩
    rw [Nat.cast_mul, cast_pow10_natAbs, abs_of_neg hp, zpow_neg]
    field_simp
  · refine ⟨Nat.mul_pos hden (pow10_pos _), ?_⟩
    rw [Nat.cast_mul, cast_pow10_natAbs, abs_of_nonneg (not_lt.mp hp), div_div]

theorem reaches_iff :
    (if p < 0 then den else den * pow10 p.natAbs) ≤ (if p < 0 then num * pow10 p.natAbs else num) ↔
      (10 : ℚ) ^ p ≤ num / den := by
  obtain ⟨hpos, hratio⟩ := ratio_in_tens num hden p
  have hpos' : (0 : ℚ) < (if p < 0 then den else den * pow10 p.natAbs : ℕ) := by exact_mod_cast hpos
  rw [← one_le_div₀ (zpow_pos (by norm_num) p), ← hratio, one_le_div₀ hpos', Nat.cast_le]

end

theorem digitCount_ratio_bounds {num den : ℕ} (hnum : 0 < num) (hden : 0 < den) :
    let guess : ℤ := (Decimal.digitCount num : ℤ) - Decimal.digitCount den
    (10 : ℚ) ^ (guess - 1) ≤ num / den ∧ (num : ℚ) / den < 10 ^ (guess + 1) := by
  have hden' : (0 : ℚ) < den := by exact_mod_cast hden
  have hten : ∀ k : ℤ, (0 : ℚ) < 10 ^ k := fun k => zpow_pos (by norm_num) k
  obtain ⟨hnumLow, hnumHigh⟩ := Binary64.digitCount_bounds hnum.ne'
  obtain ⟨hdenLow, hdenHigh⟩ := Binary64.digitCount_bounds hden.ne'
  dsimp only
  generalize (Decimal.digitCount num : ℤ) = a at *
  generalize (Decimal.digitCount den : ℤ) = b at *
  constructor
  · rw [le_div_iff₀ hden']
    calc (10 : ℚ) ^ (a - b - 1) * den
        ≤ 10 ^ (a - b - 1) * 10 ^ b := mul_le_mul_of_nonneg_left hdenHigh.le (hten _).le
      _ = 10 ^ (a - 1) := by
          rw [← zpow_add₀ (by norm_num)]
          congr 1
          omega
      _ ≤ num := hnumLow
  · rw [div_lt_iff₀ hden']
    calc (num : ℚ) < 10 ^ a := hnumHigh
      _ = 10 ^ (a - b + 1) * 10 ^ (b - 1) := by
          rw [← zpow_add₀ (by norm_num)]
          congr 1
          omega
      _ ≤ 10 ^ (a - b + 1) * den := mul_le_mul_of_nonneg_left hdenLow (hten _).le

theorem decimalExponent_bounds {num den : ℕ} (hnum : 0 < num) (hden : 0 < den) :
    (10 : ℚ) ^ decimalExponent num den ≤ num / den ∧
      (num : ℚ) / den < 10 ^ (decimalExponent num den + 1) := by
  obtain ⟨hlow, hhigh⟩ := digitCount_ratio_bounds hnum hden
  unfold decimalExponent
  dsimp only
  generalize (Decimal.digitCount num : ℤ) - Decimal.digitCount den = guess at *
  have hreached : (if guess < 0 then den ≤ num * pow10 guess.natAbs
      else den * pow10 guess.natAbs ≤ num) ↔ (10 : ℚ) ^ guess ≤ num / den := by
    rw [← reaches_iff num hden guess]
    split_ifs <;> rfl
  by_cases h : (10 : ℚ) ^ guess ≤ num / den
  · rw [if_pos (hreached.mpr h)]
    exact ⟨h, hhigh⟩
  · rw [if_neg fun hguess => h (hreached.mp hguess), sub_add_cancel]
    exact ⟨hlow, lt_of_not_ge h⟩

theorem roundDiv_eq_or (num den : ℕ) :
    Binary64.roundDiv num den = num / den ∨ Binary64.roundDiv num den = num / den + 1 := by
  unfold Binary64.roundDiv
  dsimp only
  split_ifs <;> omega

/-- What is known of the two neighbours of `num / den`: how near the first one is, and that neither
leaves a range of whole numbers. -/
theorem neighbours_spec (num : ℕ) {den : ℕ} (hden : 0 < den) (p : ℤ) {low high : ℕ}
    (hlow : (low : ℚ) ≤ num / den / 10 ^ p) (hhigh : (num : ℚ) / den / 10 ^ p < high) :
    |(num : ℚ) / den / 10 ^ p - (neighbours num den p).1| ≤ 1 / 2 ∧
      (low ≤ (neighbours num den p).1 ∧ (neighbours num den p).1 ≤ high) ∧
        low ≤ (neighbours num den p).2 ∧ (neighbours num den p).2 ≤ high := by
  obtain ⟨hpos, hratio⟩ := ratio_in_tens num hden p
  unfold neighbours
  dsimp only
  rw [← hratio] at hlow hhigh ⊢
  generalize (if p < 0 then num * pow10 p.natAbs else num) = top at *
  generalize (if p < 0 then den else den * pow10 p.natAbs) = bottom at *
  have hpos' : (0 : ℚ) < bottom := by exact_mod_cast hpos
  have hnear := (Binary64.roundDiv_nearest top hpos).near
  have hfloorLow : low ≤ top / bottom := by
    rw [le_div_iff₀ hpos'] at hlow
    exact (Nat.le_div_iff_mul_le hpos).mpr (by exact_mod_cast hlow)
  have hfloorHigh : top / bottom < high := by
    rw [div_lt_iff₀ hpos'] at hhigh
    exact (Nat.div_lt_iff_lt_mul hpos).mpr (by exact_mod_cast hhigh)
  rcases roundDiv_eq_or top bottom with hfloor | hceil
  · rw [if_pos hfloor]
    exact ⟨hfloor ▸ hnear, by omega, by omega⟩
  · rw [if_neg (by omega)]
    exact ⟨hceil ▸ hnear, by omega, by omega⟩

def Digits.value (d : Digits) : ℚ := d.digits * 10 ^ (d.power - (d.count - 1 : ℕ))

structure Digits.Of (d : Digits) (code : ℕ) : Prop where
  pos : 0 < d.count
  low : 10 ^ (d.count - 1) ≤ d.digits
  high : d.digits ≤ 10 ^ d.count
  holds : (cell code).Holds d.value

/-- With seventeen digits the nearest decimal is in the cell: ten to the sixteenth is more than two
to the fifty-third, so half of its unit is less than half a unit of the mantissa. -/
theorem holds_of_near {code : ℕ} (hzero : code ≠ 0) {p : ℤ} {n : ℕ}
    (hnear : |size code / 10 ^ p - n| ≤ 1 / 2) (hfine : 10 ^ 16 ≤ size code / 10 ^ p) :
    (cell code).Holds (n * 10 ^ p) := by
  have hm := Binary64.parts_pos hzero
  have hcounts := parts_counts code
  unfold size at hnear hfine
  generalize hparts : Binary64.parts code = parts at hcounts hm hnear hfine
  obtain ⟨m, q⟩ := parts
  dsimp only at hcounts hm hnear hfine
  have hunit : (0 : ℚ) < 2 ^ q := zpow_pos two_pos q
  have hten : (0 : ℚ) < 10 ^ p := zpow_pos (by norm_num) p
  rw [cell_holds_iff hparts hm]
  generalize (2 : ℚ) ^ q = unit at *
  generalize (10 : ℚ) ^ p = ten at *
  rw [abs_le, le_sub_iff_add_le, sub_le_iff_le_add, le_div_iff₀ hten, div_le_iff₀ hten] at hnear
  rw [le_div_iff₀ hten] at hfine
  have hmantissa : m * unit < 2 ^ 53 * unit :=
    mul_lt_mul_of_pos_right (by exact_mod_cast hcounts.below) hunit
  have hhigh : n * ten < (m + 1 / 2) * unit := by linarith
  have hlow : (m - reach m q / 4) * unit < n * ten := by
    unfold reach
    split_ifs with hleast
    · obtain ⟨rfl, -⟩ : m = pow2 52 ∧ -1074 < q := by simpa using hleast
      rw [Binary64.cast_pow2] at *
      push_cast
      linarith
    · push_cast
      linarith
  exact ⟨hlow.le, hhigh.le, fun hend => absurd hend (not_or.mpr ⟨hlow.ne, hhigh.ne⟩)⟩

theorem searchDigits_of {code num den : ℕ} (hzero : code ≠ 0) (hden : 0 < den)
    (hratio : (num : ℚ) / den = size code) {top : ℤ} (hlow : (10 : ℚ) ^ top ≤ size code)
    (hhigh : size code < 10 ^ (top + 1)) {left : ℕ} (hleft : left ≤ 16) :
    (searchDigits code num den top left).Of code := by
  -- with `count` digits the magnitude is that many digits in front of the point
  have hscaled : ∀ count : ℕ, 0 < count →
      ((10 ^ (count - 1) : ℕ) : ℚ) ≤ num / den / 10 ^ (top - (count - 1 : ℕ)) ∧
        (num : ℚ) / den / 10 ^ (top - (count - 1 : ℕ)) < (10 ^ count : ℕ) := by
    intro count hcount
    have hten : (0 : ℚ) < 10 ^ (top - (count - 1 : ℕ)) := zpow_pos (by norm_num) _
    rw [hratio, le_div_iff₀ hten, div_lt_iff₀ hten, Nat.cast_pow, Nat.cast_pow, Nat.cast_ofNat,
      ← zpow_natCast, ← zpow_natCast, ← zpow_add₀ (by norm_num), ← zpow_add₀ (by norm_num)]
    rw [show ((count - 1 : ℕ) : ℤ) + (top - (count - 1 : ℕ)) = top by omega,
      show (count : ℤ) + (top - (count - 1 : ℕ)) = top + 1 by omega]
    exact ⟨hlow, hhigh⟩
  induction left with
  | zero =>
    obtain ⟨hl, hh⟩ := hscaled 17 (by norm_num)
    obtain ⟨hnear, hrange, -⟩ := neighbours_spec num hden _ hl hh
    rw [hratio] at hnear hl
    exact ⟨Nat.succ_pos 16, hrange.1, hrange.2, holds_of_near hzero hnear (by exact_mod_cast hl)⟩
  | succ left ih =>
    have hcount : 0 < 16 - left := by omega
    obtain ⟨hl, hh⟩ := hscaled (16 - left) hcount
    obtain ⟨-, hnear, hfar⟩ := neighbours_spec num hden _ hl hh
    rw [searchDigits]
    dsimp only
    split_ifs with hreads hreads'
    · exact ⟨hcount, hnear.1, hnear.2, (Cell.reads_iff ..).mp hreads⟩
    · exact ⟨hcount, hfar.1, hfar.2, (Cell.reads_iff ..).mp hreads'⟩
    · exact ih (by omega)

/-- The shortest digits are as many as they claim and lie in the cell. -/
theorem shortest_of {code : ℕ} (hzero : code ≠ 0) :
    (shortest code).Of code ∧ (shortest code).digits < 10 ^ (shortest code).count := by
  have hsize := Binary64.size_pos hzero
  obtain ⟨hden, hratio⟩ := Binary64.ratio_size code
  unfold shortest
  generalize Binary64.ratio code = r at *
  obtain ⟨num, den⟩ := r
  dsimp only at *
  have hnum : 0 < num := by
    refine Nat.pos_of_ne_zero fun hnum => hsize.ne ?_
    rw [← hratio, hnum, Nat.cast_zero, zero_div]
  obtain ⟨hlow, hhigh⟩ := decimalExponent_bounds hnum hden
  rw [hratio] at hlow hhigh
  have hfound := searchDigits_of hzero hden hratio hlow hhigh (le_refl 16)
  generalize searchDigits code num den (decimalExponent num den) 16 = found at *
  split_ifs with hfull
  · -- rounding up has come to the next power of ten
    obtain ⟨count, hcount⟩ := Nat.exists_eq_succ_of_ne_zero hfound.pos.ne'
    have hdigits : found.digits = 10 ^ count * 10 := by
      rw [← pow_succ, ← Nat.succ_eq_add_one, ← hcount]
      exact le_antisymm hfound.high hfull
    have hpart : found.digits / 10 = 10 ^ count := by omega
    have hvalue : (⟨found.digits / 10, found.count, found.power + 1⟩ : Digits).value =
        found.value := by
      rw [Digits.value, Digits.value, hpart, hdigits, add_sub_right_comm,
        zpow_add_one₀ (by norm_num)]
      push_cast
      ring
    have hnext : found.digits / 10 < 10 ^ found.count := by
      rw [hpart, hcount]
      exact Nat.pow_lt_pow_right (by norm_num) (Nat.lt_succ_self count)
    refine ⟨⟨hfound.pos, ?_, hnext.le, hvalue ▸ hfound.holds⟩, hnext⟩
    rw [hpart, hcount]
    exact le_rfl
  · exact ⟨hfound, lt_of_not_ge hfull⟩

end Number

namespace DigitRun

variable {t u : Text} {n k : ℕ}

theorem concat (ht : DigitRun t n) (hu : DigitRun u k) :
    DigitRun (t ++ u) (10 ^ u.length * n + k) :=
  ⟨fun c hc => (List.mem_append.mp hc).elim (ht.digits c) (hu.digits c), ht.append hu⟩

theorem zeros (k : ℕ) : DigitRun (List.replicate k '0') 0 := by
  induction k with
  | zero => exact ⟨by simp, rfl⟩
  | succ k ih =>
    have hzero : DigitRun ['0'] 0 := ⟨by simp, rfl⟩
    exact hzero.concat ih

theorem cut (ht : DigitRun t n) (j : ℕ) :
    ∃ a b, DigitRun (t.take j) a ∧ DigitRun (t.drop j) b ∧ n = 10 ^ (t.length - j) * a + b := by
  have hfront : DigitRun (t.take j) (Decimal.ofDigits (t.take j)) :=
    ⟨fun c hc => ht.digits c (List.mem_of_mem_take hc), rfl⟩
  have hback : DigitRun (t.drop j) (Decimal.ofDigits (t.drop j)) :=
    ⟨fun c hc => ht.digits c (List.mem_of_mem_drop hc), rfl⟩
  refine ⟨_, _, hfront, hback, ?_⟩
  rw [← List.length_drop, ← hfront.append hback, List.take_append_drop]
  exact ht.count.symm

/-- With a point in it a run stands for its number in units of the last place. -/
theorem pointed (ht : DigitRun t n) (hne : t ≠ []) (j : ℕ) :
    Significand (t.take j ++ '.' :: t.drop j) (n / 10 ^ (t.length - j)) := by
  obtain ⟨a, b, ha, hb, rfl⟩ := ht.cut j
  have hpart : t.take j ≠ [] ∨ t.drop j ≠ [] := by
    rw [← not_and_or]
    exact fun h => hne (by rw [← List.take_append_drop j t, h.1, h.2, List.append_nil])
  have hvalue : ((10 ^ (t.length - j) * a + b : ℕ) : ℚ) / 10 ^ (t.length - j) =
      a + b / 10 ^ (t.drop j).length := by
    rw [List.length_drop]
    push_cast
    field_simp
  rw [hvalue]
  exact .point ha hb hpart

end DigitRun

namespace Number

theorem natText_run (n : ℕ) : DigitRun (natText n) n :=
  ⟨fun _ hc => Nat.isDigit_of_mem_toDigits (by norm_num) (by norm_num) hc,
    Nat.ofDigitChars_ten_toDigits⟩

theorem trimZeros_spec {n : ℕ} (hn : n ≠ 0) :
    trimZeros (natText n) ≠ [] ∧
      ∃ k, natText n = trimZeros (natText n) ++ List.replicate k '0' := by
  have hzeros : (natText n).reverse.takeWhile (· == '0') =
      List.replicate ((natText n).reverse.takeWhile (· == '0')).length '0' :=
    List.eq_replicate_of_mem fun c hc => by simpa using List.mem_takeWhile_imp hc
  have hsplit : natText n = ((natText n).reverse.dropWhile (· == '0')).reverse ++
      List.replicate ((natText n).reverse.takeWhile (· == '0')).length '0' := by
    rw [← List.reverse_replicate, ← hzeros, ← List.reverse_append, List.takeWhile_append_dropWhile,
      List.reverse_reverse]
  have hkept : ((natText n).reverse.dropWhile (· == '0')).reverse ≠ [] := by
    intro hnil
    rw [hnil, List.nil_append] at hsplit
    have hzero := (DigitRun.zeros ((natText n).reverse.takeWhile (· == '0')).length).count
    rw [← hsplit, (natText_run n).count] at hzero
    exact hn hzero
  have htrim : trimZeros (natText n) = ((natText n).reverse.dropWhile (· == '0')).reverse := by
    unfold trimZeros
    split
    · rename_i hnil
      exact absurd hnil hkept
    · rfl
  rw [htrim]
  exact ⟨hkept, _, hsplit⟩

theorem natText_length {n count : ℕ} (hcount : 0 < count) (hlow : 10 ^ (count - 1) ≤ n)
    (hhigh : n < 10 ^ count) : (natText n).length = count := by
  refine le_antisymm ((Nat.length_toDigits_le_iff (by norm_num) hcount).mpr hhigh) ?_
  refine Nat.le_of_not_lt fun hshort => ?_
  have hpos : 0 < (natText n).length := Nat.length_toDigits_pos
  have hlt := (Nat.length_toDigits_le_iff (by norm_num) (by omega)).mp (Nat.le_sub_one_of_lt hshort)
  omega

/-- What remains of the shortest digits stands for the same number. -/
theorem trimZeros_value {d : Digits} {code : ℕ} (hof : d.Of code) (hlt : d.digits < 10 ^ d.count) :
    ∃ m, DigitRun (trimZeros (natText d.digits)) m ∧ trimZeros (natText d.digits) ≠ [] ∧
      d.value = m * 10 ^ (d.power - ((trimZeros (natText d.digits)).length - 1 : ℤ)) := by
  have hn : d.digits ≠ 0 := (lt_of_lt_of_le (Nat.pow_pos (by norm_num)) hof.low).ne'
  obtain ⟨hne, k, hsplit⟩ := trimZeros_spec hn
  have hlength := natText_length hof.pos hof.low hlt
  have hrun := natText_run d.digits
  have hpos := List.length_pos_iff.mpr hne
  rw [hsplit] at hrun hlength
  generalize trimZeros (natText d.digits) = t at *
  have ht : DigitRun t (Decimal.ofDigits t) :=
    ⟨fun c hc => hrun.digits c (List.mem_append_left _ hc), rfl⟩
  have hdigits : d.digits = 10 ^ k * Decimal.ofDigits t := by
    rw [← hrun.count]
    have happend := ht.append (DigitRun.zeros k)
    rwa [List.length_replicate, add_zero] at happend
  rw [List.length_append, List.length_replicate] at hlength
  refine ⟨_, ht, hne, ?_⟩
  rw [Digits.value, hdigits, Nat.cast_mul, mul_comm ((10 ^ k : ℕ) : ℚ), mul_assoc, Nat.cast_pow,
    Nat.cast_ofNat, ← zpow_natCast, ← zpow_add₀ (by norm_num)]
  congr 2
  omega

/-- A text without a sign that writes a number, with a mark that whole numbers do not have. -/
def Spells (t : Text) (x : ℚ) : Prop :=
  ∃ u v y k, t = u ++ v ∧ Significand u y ∧ Power v k ∧ y * 10 ^ k = x ∧ ('.' ∈ t ∨ 'e' ∈ t)

section
variable {t : Text} {m : ℕ} (hrun : DigitRun t m) (hne : t ≠ [])
include hrun hne

/-- Zeros stand between the point and the digits of a small number. -/
theorem spells_small {p : ℤ} (hp : p < 0) :
    Spells ('0' :: '.' :: (List.replicate (p.natAbs - 1) '0' ++ t))
      (m * 10 ^ (p - (t.length - 1 : ℤ))) := by
  have hpos := List.length_pos_iff.mpr hne
  have hback := (DigitRun.zeros (p.natAbs - 1)).concat hrun
  refine ⟨_, [], _, 0, (List.append_nil _).symm, .point (DigitRun.zeros 1) hback (.inl (by simp)),
    .absent, ?_, .inl (by simp)⟩
  rw [mul_zero, zero_add, Nat.cast_zero, zero_add, zpow_zero, mul_one, List.length_append,
    List.length_replicate, ← zpow_natCast, div_eq_mul_inv, ← zpow_neg]
  congr 2
  push_cast
  omega

theorem spells_plain {p : ℤ} (hp : 0 ≤ p) :
    Spells (t.take (p.toNat + 1) ++ List.replicate (p.toNat + 1 - t.length) '0' ++
        '.' :: (if (t.drop (p.toNat + 1)).isEmpty then ['0'] else t.drop (p.toNat + 1)))
      (m * 10 ^ (p - (t.length - 1 : ℤ))) := by
  rcases le_or_gt t.length (p.toNat + 1) with hfits | hlong
  · have hfront := hrun.concat (DigitRun.zeros (p.toNat + 1 - t.length))
    rw [List.take_of_length_le hfits, List.drop_of_length_le hfits]
    refine ⟨_, [], _, 0, (List.append_nil _).symm,
      .point hfront (DigitRun.zeros 1) (.inr (by simp)), .absent, ?_, .inl (by simp)⟩
    rw [Nat.cast_zero, zero_div, add_zero, add_zero, zpow_zero, mul_one, List.length_replicate,
      Nat.cast_mul, mul_comm, Nat.cast_pow, Nat.cast_ofNat, ← zpow_natCast]
    congr 2
    omega
  · have hback : (t.drop (p.toNat + 1)).isEmpty = false := by
      rw [List.isEmpty_eq_false_iff, ← List.length_pos_iff, List.length_drop]
      omega
    rw [Nat.sub_eq_zero_of_le hlong.le, List.replicate_zero, List.append_nil, hback]
    refine ⟨_, [], _, 0, (List.append_nil _).symm, hrun.pointed hne (p.toNat + 1), .absent, ?_,
      .inl (by simp)⟩
    rw [zpow_zero, mul_one, ← zpow_natCast, div_eq_mul_inv, ← zpow_neg]
    congr 2
    omega

/-- One digit stands in front of the point, and the power behind its mark. -/
theorem spells_exponent (width : ℕ) (p : ℤ) :
    Spells (t.take 1 ++ (if t.length ≤ 1 then [] else '.' :: t.drop 1) ++
        'e' :: (if p < 0 then '-' else '+') :: padLeft width '0' (natText p.natAbs))
      (m * 10 ^ (p - (t.length - 1 : ℤ))) := by
  have hdigits : DigitRun (padLeft width '0' (natText p.natAbs)) p.natAbs := by
    have hpadded := (DigitRun.zeros (width - (natText p.natAbs).length)).concat
      (natText_run p.natAbs)
    rwa [mul_zero, zero_add] at hpadded
  have hnonempty : padLeft width '0' (natText p.natAbs) ≠ [] :=
    List.append_ne_nil_of_right_ne_nil _ (List.length_pos_iff.mp Nat.length_toDigits_pos)
  have hpower : Power ('e' :: (if p < 0 then '-' else '+') :: padLeft width '0' (natText p.natAbs))
      p := by
    split_ifs with hp
    · have hminus := Power.marked (.inl rfl) .minus hdigits hnonempty
      rwa [show (-1 : ℤ) * p.natAbs = p by omega] at hminus
    · have hplus := Power.marked (.inl rfl) .plus hdigits hnonempty
      rwa [show (1 : ℤ) * p.natAbs = p by omega] at hplus
  have hfront : Significand (t.take 1 ++ if t.length ≤ 1 then [] else '.' :: t.drop 1)
      (m / 10 ^ (t.length - 1)) := by
    split_ifs with hone
    · rw [List.append_nil, List.take_of_length_le hone, Nat.sub_eq_zero_of_le hone, pow_zero,
        div_one]
      exact .whole hrun hne
    · exact hrun.pointed hne 1
  refine ⟨_, _, _, p, rfl, hfront, hpower, ?_, .inr (by simp)⟩
  rw [zpow_sub₀ (by norm_num), ← Nat.cast_pred (List.length_pos_iff.mpr hne), zpow_natCast,
    div_mul_eq_mul_div, mul_div_assoc]

end

/-- Every layout writes the number that the digits stand for. -/
theorem Layout.digits_spells (l : Layout) {d : Digits} {code : ℕ} (hof : d.Of code)
    (hlt : d.digits < 10 ^ d.count) : Spells (l.digits d) d.value := by
  obtain ⟨m, hrun, hne, hvalue⟩ := trimZeros_value hof hlt
  rw [hvalue]
  unfold Layout.digits
  dsimp only
  by_cases hplain : (decide (l.least ≤ d.power) && decide (d.power < l.most)) = true
  · rw [if_pos hplain]
    by_cases hsmall : d.power < 0
    · rw [if_pos hsmall]
      exact spells_small hrun hne hsmall
    · rw [if_neg hsmall]
      exact spells_plain hrun hne (not_lt.mp hsmall)
  · rw [if_neg hplain]
    exact spells_exponent hrun hne l.exponentWidth d.power

theorem Spells.zero : Spells ['0', '.', '0'] 0 :=
  ⟨_, [], _, 0, rfl, .point (DigitRun.zeros 1) (DigitRun.zeros 1) (.inl (by simp)), .absent,
    by simp, .inl (by simp)⟩

/-- The text of a finite number is a sign, if it takes one, and what spells a magnitude of the same
code. -/
theorem Layout.text_spells (l : Layout) {x : Binary64} (hfinite : x.code < Binary64.infinityCode) :
    ∃ t y, l.text x = (if x.negative then '-' :: t else t) ∧ Spells t y ∧
      Binary64.Rounds y x.code := by
  unfold Layout.text
  rw [if_neg (by simpa [Binary64.isNan] using hfinite.le)]
  dsimp only
  rw [if_neg hfinite.ne]
  by_cases hzero : x.code = 0
  · rw [if_pos hzero, hzero]
    exact ⟨_, 0, rfl, .zero, Binary64.rounds_zero⟩
  · obtain ⟨hof, hlt⟩ := shortest_of hzero
    rw [if_neg hzero]
    exact ⟨_, _, rfl, l.digits_spells hof hlt, rounds_of_holds hzero hfinite hof.holds⟩

/-- A finite number is read back from its text, with its sign. -/
theorem Layout.read?_text (l : Layout) {x : Binary64} (hfinite : x.code < Binary64.infinityCode) :
    ∃ d, Decimal.read? (l.text x) = some d ∧ Binary64.ofDecimal d = x := by
  obtain ⟨t, y, htext, ⟨u, v, z, k, rfl, hsignificand, hpower, rfl, -⟩, hrounds⟩ :=
    l.text_spells hfinite
  obtain ⟨units, exponent, hread, hvalue⟩ := Decimal.readUnsigned?_append hsignificand hpower
  obtain ⟨hne, hhead⟩ := hsignificand.head
  have hsignless : ∀ c ∈ (u ++ v).head?, c ≠ '+' ∧ c ≠ '-' := by
    rwa [List.head?_append_of_ne_nil _ hne]
  have hsplit := Decimal.splitSign_signed hsignless x.negative
  rw [← htext] at hsplit
  have hread' : Decimal.read? (l.text x) = some ⟨x.negative, units, exponent⟩ :=
    Decimal.read?_eq_some_iff.mpr (by rw [hsplit]; exact ⟨hread, rfl⟩)
  refine ⟨_, hread', ?_⟩
  rw [← hvalue] at hrounds
  rw [Binary64.ofDecimal, (Binary64.codeOfDecimal_rounds units exponent).unique hrounds]

end Number

end Conditions
