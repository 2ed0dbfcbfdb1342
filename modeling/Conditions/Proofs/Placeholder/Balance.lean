import Conditions.Placeholder.Enclosed
import Mathlib.Data.List.Infix

/-!
# Delimiters that belong together

The first and the last character of a text belong together exactly if the delimiters between them
are balanced. The text is then turned into a reference, and its inside stays as it is.
-/

set_option autoImplicit false

namespace Conditions.Placeholder

def Balanced (opening closing : Char) (t : Text) : Prop :=
  (∀ front, front <+: t → front.count closing ≤ front.count opening) ∧
    t.count opening = t.count closing

instance (opening closing : Char) (t : Text) : Decidable (Balanced opening closing t) :=
  decidable_of_iff ((∀ front ∈ t.inits, front.count closing ≤ front.count opening) ∧
    t.count opening = t.count closing) (by simp only [List.mem_inits, Balanced])

def Encloses (opening closing : Char) (inner t : Text) : Prop :=
  t = opening :: inner ++ [closing] ∧ Balanced opening closing inner

structure Closes (opening closing : Char) (depth : Nat) (t : Text) : Prop where
  enough : ∀ front, front <+: t → front.count closing ≤ depth + front.count opening
  total : depth + t.count opening = t.count closing

section
variable {opening closing : Char}

theorem closes_zero_iff {t : Text} : Closes opening closing 0 t ↔ Balanced opening closing t := by
  constructor
  · intro h
    exact ⟨fun front hfront => by simpa using h.enough front hfront, by simpa using h.total⟩
  · rintro ⟨henough, htotal⟩
    exact ⟨fun front hfront => by simpa using henough front hfront, by simpa using htotal⟩

theorem closes_nil_iff {depth : Nat} : Closes opening closing depth [] ↔ depth = 0 := by
  constructor
  · intro h
    simpa using h.total
  · rintro rfl
    exact ⟨fun front hfront => by simp [List.prefix_nil.mp hfront], rfl⟩

theorem closes_cons_iff {depth depth' : Nat} {a : Char} {t : Text}
    (hdepth : depth + [a].count opening = depth' + [a].count closing) :
    Closes opening closing depth (a :: t) ↔ Closes opening closing depth' t := by
  have hcount (front : Text) (b : Char) :
      (a :: front).count b = [a].count b + front.count b := by
    rw [← List.singleton_append, List.count_append]
  constructor
  · intro h
    refine ⟨fun front hfront => ?_, ?_⟩
    · have hle := h.enough (a :: front) (List.cons_prefix_cons.mpr ⟨rfl, hfront⟩)
      rw [hcount front opening, hcount front closing] at hle
      omega
    · have htotal := h.total
      rw [hcount t opening, hcount t closing] at htotal
      omega
  · intro h
    refine ⟨fun front hfront => ?_, ?_⟩
    · rcases List.prefix_cons_iff.mp hfront with rfl | ⟨front', rfl, hfront'⟩
      · exact Nat.zero_le _
      · have hle := h.enough front' hfront'
        rw [hcount front' opening, hcount front' closing]
        omega
    · have htotal := h.total
      rw [hcount t opening, hcount t closing]
      omega

/-- Nothing is left to close in front of a closing delimiter. -/
theorem not_closes_closing (hne : opening ≠ closing) (t : Text) :
    ¬ Closes opening closing 0 (closing :: t) := by
  intro h
  have hle := h.enough [closing] (List.prefix_append [closing] t)
  simp [hne.symm] at hle

/-- With one more delimiter open than the inside closes, the last character closes it, and no
character before does. -/
theorem closesAtEnd_iff (hne : opening ≠ closing) (depth : Nat) (inner : Text) :
    closesAtEnd opening closing (depth + 1) (inner ++ [closing]) = true ↔
      Closes opening closing depth inner := by
  induction inner generalizing depth with
  | nil =>
    rw [closes_nil_iff, List.nil_append]
    unfold closesAtEnd
    rw [if_neg hne.symm, if_pos rfl]
    cases depth with
    | zero => simp
    | succ depth => simp [closesAtEnd]
  | cons a inner ih =>
    rw [List.cons_append]
    unfold closesAtEnd
    by_cases ho : a = opening
    · subst ho
      rw [if_pos rfl, ih, closes_cons_iff]
      simp [hne]
    · rw [if_neg ho]
      by_cases hc : a = closing
      · subst hc
        rw [if_pos rfl]
        cases depth with
        | zero => simp [not_closes_closing hne]
        | succ depth =>
          have hdepth : depth + 1 + [a].count opening = depth + [a].count a := by
            simp [ho]
          rw [closes_cons_iff hdepth]
          exact ih depth
      · rw [if_neg hc, ih, closes_cons_iff]
        simp [ho, hc]

theorem isEnclosed_iff (hne : opening ≠ closing) {t : Text} :
    isEnclosed opening closing t = true ↔ ∃ inner, Encloses opening closing inner t := by
  have hinside : ∀ inner, isEnclosed opening closing (opening :: inner ++ [closing]) = true ↔
      Balanced opening closing inner := by
    intro inner
    have hlast : (opening :: inner ++ [closing]).getLast? = some closing := List.getLast?_concat
    rw [← closes_zero_iff, ← closesAtEnd_iff hne, isEnclosed, hlast]
    simp [closesAtEnd]
  constructor
  · intro h
    have hends : t.head? = some opening ∧ t.getLast? = some closing := by
      simp only [isEnclosed, Bool.and_eq_true, beq_iff_eq] at h
      exact h.1
    obtain ⟨rest, rfl⟩ : ∃ rest, t = opening :: rest := by
      cases t with
      | nil => simp at hends
      | cons a rest => exact ⟨rest, by simpa using hends.1⟩
    -- a text of one character would be both delimiters at once
    have hrest : rest ≠ [] := by
      rintro rfl
      exact hne (by simpa using hends.2)
    have hlast : rest.getLast hrest = closing := by
      have hsome := hends.2
      rw [List.getLast?_cons_of_ne_nil hrest, List.getLast?_eq_some_getLast hrest] at hsome
      exact Option.some.inj hsome
    have hsplit : opening :: rest = opening :: rest.dropLast ++ [closing] := by
      rw [List.cons_append, ← hlast, List.dropLast_append_getLast hrest]
    exact ⟨rest.dropLast, hsplit, (hinside _).mp (hsplit ▸ h)⟩
  · rintro ⟨inner, rfl, hbalanced⟩
    exact (hinside inner).mpr hbalanced

/-- When both delimiters are the same character, every one of them opens. -/
theorem not_isEnclosed_same (c : Char) (t : Text) : isEnclosed c c t = false := by
  have hopen : ∀ (t : Text) (depth : Nat), closesAtEnd c c (depth + 1) t = false := by
    intro t
    induction t with
    | nil => simp [closesAtEnd]
    | cons a t ih =>
      intro depth
      unfold closesAtEnd
      by_cases ha : a = c
      · rw [if_pos ha, ih]
      · rw [if_neg ha, if_neg ha, ih]
  cases t with
  | nil => rfl
  | cons a t =>
    by_cases ha : a = c
    · simp [isEnclosed, closesAtEnd, ha, hopen]
    · simp [isEnclosed, ha]

theorem Encloses.encloseInPercent {inner t : Text} (hne : opening ≠ closing)
    (h : Encloses opening closing inner t) :
    encloseInPercent [opening] [closing] t = '%' :: inner ++ ['%'] := by
  have henclosed := (isEnclosed_iff hne).mpr ⟨inner, h⟩
  obtain ⟨rfl, -⟩ := h
  rw [Placeholder.encloseInPercent, if_pos henclosed]
  simp

end

/-- For two different characters as delimiters a text is turned into a reference exactly if it is a
balanced text between the two, and then its inside is kept; every other text stays as it is. So does
every text when the delimiters are the same or are no single characters. -/
theorem enclosed_iff_balanced (t : Text) :
    (∀ opening closing : Char, opening ≠ closing → ∀ out,
      encloseInPercent [opening] [closing] t = out ↔
        (∃ inner, Encloses opening closing inner t ∧ out = '%' :: inner ++ ['%']) ∨
          (¬ ∃ inner, Encloses opening closing inner t) ∧ out = t) ∧
      ∀ opening closing : Text,
        opening = closing ∨ opening.length ≠ 1 ∨ closing.length ≠ 1 →
          encloseInPercent opening closing t = t := by
  constructor
  · intro opening closing hne out
    by_cases h : ∃ inner, Encloses opening closing inner t
    · obtain ⟨inner, hinner⟩ := h
      rw [hinner.encloseInPercent hne]
      constructor
      · rintro rfl
        exact .inl ⟨inner, hinner, rfl⟩
      · rintro (⟨inner', hinner', rfl⟩ | ⟨hnone, -⟩)
        · rw [← hinner.encloseInPercent hne, hinner'.encloseInPercent hne]
        · exact absurd ⟨inner, hinner⟩ hnone
    · have hsame : encloseInPercent [opening] [closing] t = t :=
        if_neg (mt (isEnclosed_iff hne).mp h)
      rw [hsame]
      constructor
      · rintro rfl
        exact .inr ⟨h, rfl⟩
      · rintro (⟨inner, hinner, -⟩ | ⟨-, rfl⟩)
        · exact absurd ⟨inner, hinner⟩ h
        · rfl
  · intro opening closing h
    match opening, closing, h with
    | [o], [c], h =>
      have heq : o = c := by simpa using h
      rw [encloseInPercent, heq, not_isEnclosed_same]
      rfl
    | [], _, _ => rfl
    | _ :: _ :: _, _, _ => rfl
    | [_], [], _ => rfl
    | [_], _ :: _ :: _, _ => rfl

/-- The outermost pair of a nested reference is replaced and the inner one is kept. -/
theorem enclosed_nested_reference : '{' ≠ '}' ∧ "<<" = "<<" ∧
    encloseInPercent ['{'] ['}'] "{stat_{player}}".toList = "%stat_{player}%".toList ∧
      encloseInPercent "<<".toList "<<".toList "{a}{b}".toList = "{a}{b}".toList := by
  refine ⟨by decide, rfl, ?_, (enclosed_iff_balanced _).2 _ _ (.inl rfl)⟩
  exact ((enclosed_iff_balanced _).1 '{' '}' (by decide) _).mpr
    (.inl ⟨"stat_{player}".toList, ⟨by decide, by decide⟩, by decide⟩)

end Conditions.Placeholder
