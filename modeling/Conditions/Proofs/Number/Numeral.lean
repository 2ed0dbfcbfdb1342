import Conditions.Number.Decimal
import Mathlib.Algebra.Order.Field.Basic
import Mathlib.Algebra.Order.Ring.Rat
import Mathlib.Data.List.TakeWhile
import Mathlib.Tactic.FieldSimp
import Mathlib.Tactic.Ring

/-!
# Numerals

The grammar of decimal numbers, with the exact rational number that each of its texts writes. It has
the texts that are read as decimals, and no others.
-/

set_option autoImplicit false

namespace Conditions

structure DigitRun (t : Text) (n : ℕ) : Prop where
  digits : ∀ c ∈ t, c.isDigit = true
  count : Nat.ofDigitChars 10 t 0 = n

inductive SignFactor : Text → ℤ → Prop where
  | absent : SignFactor [] 1
  | plus : SignFactor ['+'] 1
  | minus : SignFactor ['-'] (-1)

inductive Significand : Text → ℚ → Prop where
  | whole {t : Text} {n : ℕ} (digits : DigitRun t n) (nonempty : t ≠ []) : Significand t n
  | point {t u : Text} {n k : ℕ} (front : DigitRun t n) (back : DigitRun u k)
      (nonempty : t ≠ [] ∨ u ≠ []) :
      Significand (t ++ '.' :: u) (n + k / 10 ^ u.length)

inductive Power : Text → ℤ → Prop where
  | absent : Power [] 0
  | marked {mark : Char} {s t : Text} {sign : ℤ} {n : ℕ} (mem : mark = 'e' ∨ mark = 'E')
      (factor : SignFactor s sign) (digits : DigitRun t n) (nonempty : t ≠ []) :
      Power (mark :: (s ++ t)) (sign * n)

inductive Writes : Text → ℚ → Prop where
  | intro {s t u : Text} {sign exponent : ℤ} {x : ℚ} (factor : SignFactor s sign)
      (significand : Significand t x) (power : Power u exponent) :
      Writes (s ++ t ++ u) (sign * x * 10 ^ exponent)

theorem Decimal.ofDigits_eq (t : Text) : Decimal.ofDigits t = Nat.ofDigitChars 10 t 0 := rfl

namespace DigitRun

variable {t u : Text} {n k : ℕ}

theorem takeWhile_all (t : Text) :
    DigitRun (t.takeWhile Char.isDigit) (Decimal.ofDigits (t.takeWhile Char.isDigit)) :=
  ⟨fun _ hc => List.mem_takeWhile_imp hc, rfl⟩

theorem append (ht : DigitRun t n) (hu : DigitRun u k) :
    Decimal.ofDigits (t ++ u) = 10 ^ u.length * n + k := by
  rw [Decimal.ofDigits_eq, Nat.ofDigitChars_append, Nat.ofDigitChars_eq_ofDigitChars_zero,
    ht.count, hu.count]

end DigitRun

def Digitless (t : Text) : Prop := ∀ c ∈ t.head?, c.isDigit = false

theorem Digitless.takeWhile_append {t u : Text} (hu : Digitless u)
    (ht : ∀ c ∈ t, c.isDigit = true) : (t ++ u).takeWhile Char.isDigit = t := by
  rw [List.takeWhile_append_of_pos ht]
  cases u with
  | nil => simp
  | cons c u => rw [List.takeWhile_cons_of_neg (by simp [hu c rfl]), List.append_nil]

theorem Digitless.dropWhile_append {t u : Text} (hu : Digitless u)
    (ht : ∀ c ∈ t, c.isDigit = true) : (t ++ u).dropWhile Char.isDigit = u := by
  rw [List.dropWhile_append_of_pos ht]
  cases u with
  | nil => rfl
  | cons c u => rw [List.dropWhile_cons_of_neg (by simp [hu c rfl])]

namespace Decimal

def sign (negative : Bool) : ℤ := if negative then -1 else 1

def value (d : Decimal) : ℚ := sign d.negative * d.units * 10 ^ d.exponent

theorem splitSign_factor (t : Text) :
    ∃ s, t = s ++ (splitSign t).2 ∧ SignFactor s (sign (splitSign t).1) := by
  unfold splitSign
  split
  · exact ⟨['-'], rfl, .minus⟩
  · exact ⟨['+'], rfl, .plus⟩
  · exact ⟨[], rfl, .absent⟩

theorem splitSign_append {s t : Text} {factor : ℤ} (h : SignFactor s factor)
    (ht : ∀ c ∈ t.head?, c ≠ '+' ∧ c ≠ '-') :
    ∃ negative, splitSign (s ++ t) = (negative, t) ∧ sign negative = factor := by
  cases h with
  | absent =>
    refine ⟨false, ?_, rfl⟩
    rw [List.nil_append]
    unfold splitSign
    split
    · exact absurd rfl (ht '-' rfl).2
    · exact absurd rfl (ht '+' rfl).1
    · rfl
  | plus => exact ⟨false, rfl, rfl⟩
  | minus => exact ⟨true, rfl, rfl⟩

theorem signless_of_digits {t : Text} (h : ∀ c ∈ t, c.isDigit = true) :
    ∀ c ∈ t.head?, c ≠ '+' ∧ c ≠ '-' := by
  intro c hc
  have hdigit := h c (List.mem_of_mem_head? hc)
  constructor <;> rintro rfl <;> cases hdigit

theorem readPower?_eq_some_iff {t : Text} {k : ℤ} :
    readPower? t = some k ↔ ∃ s u factor n, t = s ++ u ∧ SignFactor s factor ∧ DigitRun u n ∧
      u ≠ [] ∧ k = factor * n := by
  constructor
  · intro h
    obtain ⟨s, ht, hfactor⟩ := splitSign_factor t
    unfold readPower? at h
    dsimp only at h
    split at h
    · cases h
    · rename_i hdigits
      rw [Bool.or_eq_true, not_or, List.isEmpty_iff, Bool.not_eq_true, Bool.not_eq_false',
        List.all_eq_true] at hdigits
      refine ⟨s, _, _, _, ht, hfactor, ⟨hdigits.2, rfl⟩, hdigits.1, ?_⟩
      rw [Option.some.injEq] at h
      rw [← h, sign]
      split <;> simp [ofDigits_eq]
  · rintro ⟨s, u, factor, n, rfl, hfactor, hrun, hne, rfl⟩
    obtain ⟨negative, hsplit, rfl⟩ := splitSign_append hfactor (signless_of_digits hrun.digits)
    unfold readPower?
    rw [hsplit]
    dsimp only
    rw [if_neg, ofDigits_eq, hrun.count, sign]
    · split <;> simp
    · rw [Bool.or_eq_true, not_or, List.isEmpty_iff, Bool.not_eq_true, Bool.not_eq_false',
        List.all_eq_true]
      exact ⟨hne, hrun.digits⟩

theorem readExponent?_eq_some_iff {t : Text} {k : ℤ} : readExponent? t = some k ↔ Power t k := by
  constructor
  · intro h
    unfold readExponent? at h
    split at h
    · cases h
      exact .absent
    · obtain ⟨s, u, factor, n, rfl, hfactor, hrun, hne, rfl⟩ := readPower?_eq_some_iff.mp h
      exact .marked (.inl rfl) hfactor hrun hne
    · obtain ⟨s, u, factor, n, rfl, hfactor, hrun, hne, rfl⟩ := readPower?_eq_some_iff.mp h
      exact .marked (.inr rfl) hfactor hrun hne
    · cases h
  · intro h
    cases h with
    | absent => rfl
    | marked mem hfactor hrun hne =>
      rcases mem with rfl | rfl <;>
        exact readPower?_eq_some_iff.mpr ⟨_, _, _, _, rfl, hfactor, hrun, hne, rfl⟩

end Decimal

theorem Power.head {t : Text} {k : ℤ} (h : Power t k) :
    ∀ c ∈ t.head?, c.isDigit = false ∧ c ≠ '.' := by
  cases h with
  | absent => simp
  | marked mem => rcases mem with rfl | rfl <;> simp +decide

namespace Decimal

theorem point_value (n m places : ℕ) (k : ℤ) :
    ((10 ^ places * n + m : ℕ) : ℚ) * 10 ^ (k - places) = (n + m / 10 ^ places) * 10 ^ k := by
  rw [zpow_sub₀ (by norm_num), zpow_natCast]
  push_cast
  field_simp

theorem readUnsigned?_writes {t : Text} {units : ℕ} {exponent : ℤ}
    (h : readUnsigned? t = some (units, exponent)) :
    ∃ u v x k, t = u ++ v ∧ Significand u x ∧ Power v k ∧
      (units : ℚ) * 10 ^ exponent = x * 10 ^ k := by
  have ht := (List.takeWhile_append_dropWhile (p := Char.isDigit) (l := t)).symm
  have hwhole := DigitRun.takeWhile_all t
  unfold readUnsigned? at h
  dsimp only at h
  split at h
  · rename_i rest hrest
    split at h
    · cases h
    · rename_i hne
      rw [Bool.and_eq_true, List.isEmpty_iff, List.isEmpty_iff, not_and_or] at hne
      obtain ⟨k, hk, hdecimal⟩ := Option.map_eq_some_iff.mp h
      rw [Prod.mk.injEq] at hdecimal
      have hpart := DigitRun.takeWhile_all rest
      refine ⟨_, _, _, k, ?_, .point hwhole hpart hne, readExponent?_eq_some_iff.mp hk, ?_⟩
      · rw [List.append_assoc, List.cons_append, List.takeWhile_append_dropWhile, ← hrest]
        exact ht
      · rw [← hdecimal.1, ← hdecimal.2, hwhole.append hpart, point_value]
  · split at h
    · cases h
    · rename_i hne
      rw [List.isEmpty_iff] at hne
      obtain ⟨k, hk, hdecimal⟩ := Option.map_eq_some_iff.mp h
      rw [Prod.mk.injEq] at hdecimal
      refine ⟨_, _, _, k, ht, .whole hwhole hne, readExponent?_eq_some_iff.mp hk, ?_⟩
      rw [hdecimal.1, hdecimal.2]

theorem readUnsigned?_append {u v : Text} {x : ℚ} {k : ℤ} (hu : Significand u x)
    (hv : Power v k) : ∃ units exponent, readUnsigned? (u ++ v) = some (units, exponent) ∧
      (units : ℚ) * 10 ^ exponent = x * 10 ^ k := by
  have hdigitless : Digitless v := fun c hc => (hv.head c hc).1
  have hexponent := readExponent?_eq_some_iff.mpr hv
  cases hu with
  | @whole _ n digits nonempty =>
    refine ⟨n, k, ?_, rfl⟩
    unfold readUnsigned?
    rw [hdigitless.takeWhile_append digits.digits, hdigitless.dropWhile_append digits.digits]
    split
    · exact absurd rfl (hv.head '.' rfl).2
    · rw [if_neg (by rwa [List.isEmpty_iff]), hexponent, ofDigits_eq, digits.count]
      rfl
  | @point t w n m front back nonempty =>
    have hpoint : Digitless ('.' :: (w ++ v)) := by
      intro c hc
      obtain rfl : '.' = c := by simpa using hc
      rfl
    refine ⟨10 ^ w.length * n + m, k - w.length, ?_, point_value n m w.length k⟩
    unfold readUnsigned?
    rw [List.append_assoc, List.cons_append, hpoint.takeWhile_append front.digits,
      hpoint.dropWhile_append front.digits]
    split
    · rename_i rest hrest
      obtain rfl : w ++ v = rest := List.tail_eq_of_cons_eq hrest
      rw [hdigitless.takeWhile_append back.digits, hdigitless.dropWhile_append back.digits,
        if_neg, hexponent, front.append back]
      · rfl
      · rwa [Bool.and_eq_true, List.isEmpty_iff, List.isEmpty_iff, not_and_or]
    · rename_i hother
      exact absurd rfl (hother _)

theorem read?_eq_some_iff {t : Text} {d : Decimal} :
    read? t = some d ↔ readUnsigned? (splitSign t).2 = some (d.units, d.exponent) ∧
      (splitSign t).1 = d.negative := by
  obtain ⟨negative, units, exponent⟩ := d
  unfold read?
  obtain ⟨minus, rest⟩ := splitSign t
  dsimp only
  cases readUnsigned? rest with
  | none => simp
  | some p => simp [Prod.ext_iff, and_comm]

end Decimal

theorem Significand.head {t : Text} {x : ℚ} (h : Significand t x) :
    t ≠ [] ∧ ∀ c ∈ t.head?, c ≠ '+' ∧ c ≠ '-' := by
  cases h with
  | whole digits nonempty => exact ⟨nonempty, Decimal.signless_of_digits digits.digits⟩
  | @point t u n k front back nonempty =>
    refine ⟨by simp, fun c hc => ?_⟩
    cases t with
    | nil =>
      obtain rfl : '.' = c := by simpa using hc
      decide
    | cons d t => exact Decimal.signless_of_digits front.digits c (by simpa using hc)

/-- The texts of the grammar are those that are read as decimals, and they write what is read. -/
theorem writes_iff {t : Text} {x : ℚ} :
    Writes t x ↔ ∃ d, Decimal.read? t = some d ∧ d.value = x := by
  constructor
  · rintro @⟨s, u, v, factor, k, x, hfactor, hsignificand, hpower⟩
    obtain ⟨hne, hhead⟩ := hsignificand.head
    have hsignless : ∀ c ∈ (u ++ v).head?, c ≠ '+' ∧ c ≠ '-' := by
      rw [List.head?_append_of_ne_nil _ hne]
      exact hhead
    obtain ⟨negative, hsplit, rfl⟩ := Decimal.splitSign_append hfactor hsignless
    obtain ⟨units, exponent, hread, hvalue⟩ := Decimal.readUnsigned?_append hsignificand hpower
    refine ⟨⟨negative, units, exponent⟩, Decimal.read?_eq_some_iff.mpr ?_, ?_⟩
    · rw [List.append_assoc, hsplit]
      exact ⟨hread, rfl⟩
    · rw [Decimal.value, mul_assoc, hvalue, mul_assoc]
  · rintro ⟨d, hread, rfl⟩
    obtain ⟨hunsigned, hnegative⟩ := Decimal.read?_eq_some_iff.mp hread
    obtain ⟨s, ht, hfactor⟩ := Decimal.splitSign_factor t
    obtain ⟨u, v, x, k, hrest, hsignificand, hpower, hvalue⟩ :=
      Decimal.readUnsigned?_writes hunsigned
    rw [hnegative] at hfactor
    rw [ht, hrest, ← List.append_assoc, Decimal.value, mul_assoc, hvalue, ← mul_assoc]
    exact .intro hfactor hsignificand hpower

end Conditions
