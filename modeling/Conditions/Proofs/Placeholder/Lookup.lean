import Conditions.Placeholder.Registry
import Conditions.Proofs.Dictionary

/-!
# Who answers for a name

The handler that was registered last for a key answers for it, however the key is written. A name
is a key, or it begins with one in front of its first underscore; otherwise nobody answers for it.
-/

set_option autoImplicit false

namespace Conditions

namespace Text

variable {mark : Char} {t front back : Text}

theorem splitAt?_eq_some_iff :
    splitAt? mark t = some (front, back) ↔ t = front ++ mark :: back ∧ mark ∉ front := by
  induction t generalizing front with
  | nil => simp [splitAt?]
  | cons c rest ih =>
    rw [splitAt?]
    by_cases hc : c = mark
    · subst hc
      rw [if_pos rfl]
      cases front with
      | nil => simp [eq_comm]
      | cons d front => simp +contextual
    · rw [if_neg hc, Option.map_eq_some_iff]
      cases front with
      | nil => simp [hc]
      | cons d front =>
        constructor
        · rintro ⟨⟨front', back'⟩, hrest, heq⟩
          cases heq
          obtain ⟨rfl, hfront⟩ := ih.mp hrest
          exact ⟨rfl, List.not_mem_cons_of_ne_of_not_mem (Ne.symm hc) hfront⟩
        · rintro ⟨heq, hfront⟩
          cases heq
          exact ⟨(front, back), ih.mpr ⟨rfl, List.not_mem_of_not_mem_cons hfront⟩, rfl⟩

end Text

namespace Placeholder.Registry

variable {κ σ : Type}

def Knows (r : Registry κ σ) (name : Text) : Prop :=
  Text.lower name ∈ Dictionary.keys r ∨
    ∃ key raw, name = key ++ '_' :: raw ∧ '_' ∉ key ∧ Text.lower key ∈ Dictionary.keys r

theorem find?_eq_none_iff {r : Registry κ σ} {name : Text} :
    r.find? name = none ↔ ¬ r.Knows name := by
  have hkey : ∀ key : Text, (∀ h, Dictionary.find? r key ≠ some h) ↔ key ∉ Dictionary.keys r := by
    intro key
    rw [← Dictionary.find?_eq_none_iff, Option.eq_none_iff_forall_ne_some]
  unfold find? Knows
  rw [not_or, ← Dictionary.find?_eq_none_iff]
  cases Dictionary.find? r (Text.lower name) with
  | some h => simp
  | none =>
    -- nobody has the full name, so the part in front of the underscore decides
    simp only [Option.bind_eq_bind, Option.bind_eq_none_iff, Option.pure_def, reduceCtorEq,
      imp_false, Prod.forall, Text.splitAt?_eq_some_iff, hkey, and_imp, true_and, not_exists,
      not_and]

theorem find?_ofList (entries : List (Text × Handler κ σ)) (key : Text) :
    Dictionary.find? (ofList entries) key =
      Dictionary.find? (entries.map fun e => (Text.lower e.1, e.2)).reverse key := by
  have hinsert : ofList entries =
      Dictionary.insertAll [] (entries.map fun e => (Text.lower e.1, e.2)) := by
    unfold ofList Dictionary.insertAll
    rw [List.foldl_map]
    rfl
  rw [hinsert, Dictionary.find?_insertAll, Dictionary.find?_nil, Option.or_none]

theorem exists_of_find?_ofList {entries : List (Text × Handler κ σ)} {key : Text}
    {h : Handler κ σ} (hfound : Dictionary.find? (ofList entries) key = some h) :
    ∃ e ∈ entries, e.2 = h := by
  rw [find?_ofList] at hfound
  obtain ⟨e, he, heq⟩ := List.mem_map.mp (List.mem_reverse.mp (Dictionary.mem_of_find? hfound))
  cases heq
  exact ⟨e, he, rfl⟩

end Placeholder.Registry

end Conditions
