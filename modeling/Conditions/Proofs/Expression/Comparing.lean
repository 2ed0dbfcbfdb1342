import Conditions.Expression.Compare
import Mathlib.Data.List.Infix

/-!
# Laws of comparing

A comparator has a mirror image, which holds when the operands change places, and an opposite, which
holds when the comparator does not, as long as it tells anything of the operands. Numbers are in a
linear order up to different spellings of one number; texts that are no truth values are partially
ordered by containment.
-/

set_option autoImplicit false

namespace Conditions

/-- A text holds another one as a run of neighbouring characters. -/
theorem Text.holds_iff {needle t : Text} : Text.holds needle t = true ↔ needle <:+: t := by
  induction t with
  | nil => rw [Text.holds, List.isEmpty_iff, List.infix_nil]
  | cons c rest ih =>
    rw [Text.holds, Bool.or_eq_true, List.isPrefixOf_iff_prefix, ih, List.infix_cons_iff]

namespace Binary64

theorem codeOfRatio_le (num den : Nat) : codeOfRatio num den ≤ infinityCode := by
  unfold codeOfRatio
  split
  · exact Nat.zero_le _
  · exact Nat.min_le_left ..

theorem codeOfDecimal_le (units : Nat) (exponent : Int) :
    codeOfDecimal units exponent ≤ infinityCode := by
  unfold codeOfDecimal
  dsimp only
  split_ifs
  · exact Nat.zero_le _
  · exact Nat.le_refl _
  · exact Nat.zero_le _
  · exact codeOfRatio_le ..
  · exact codeOfRatio_le ..

theorem ofDecimal_isNan (d : Decimal) : (ofDecimal d).isNan = false := by
  have hcode : (ofDecimal d).code ≤ infinityCode := codeOfDecimal_le ..
  simpa [isNan] using hcode

end Binary64

namespace Expression

theorem number?_isNan {t : Text} {x : Binary64} (h : number? t = some x) : x.isNan = false := by
  obtain ⟨d, -, rfl⟩ := Option.map_eq_some_iff.mp h
  exact Binary64.ofDecimal_isNan d

def place? (t : Text) : Option Int := (number? t).map Binary64.rank

def places? (l r : Text) : Option (Int × Int) :=
  match place? l, place? r with
  | some x, some y => some (x, y)
  | _, _ => none

namespace Comparator

def ofPlaces : Comparator → Int × Int → Bool
  | .greater, p => p.2 < p.1
  | .greaterEq, p => p.2 ≤ p.1
  | .less, p => p.1 < p.2
  | .lessEq, p => p.1 ≤ p.2
  | _, _ => false

def mirror : Comparator → Comparator
  | .greater => .less
  | .greaterEq => .lessEq
  | .less => .greater
  | .lessEq => .greaterEq
  | .equal => .equal
  | .unequal => .unequal
  | .contains => .within
  | .lacks => .outside
  | .within => .contains
  | .outside => .lacks

def opposite : Comparator → Comparator
  | .greater => .lessEq
  | .greaterEq => .less
  | .less => .greaterEq
  | .lessEq => .greater
  | .equal => .unequal
  | .unequal => .equal
  | .contains => .lacks
  | .lacks => .contains
  | .within => .outside
  | .outside => .within

def tells (c : Comparator) (l r : Text) : Bool :=
  match c with
  | .greater | .greaterEq | .less | .lessEq => (number? l).isSome && (number? r).isSome
  | .equal | .unequal => true
  | .contains | .lacks | .within | .outside => !(isTruthValue l || isTruthValue r)

end Comparator

section
variable {l r : Text} {c : Comparator}

theorem places?_mirror : places? r l = (places? l r).map Prod.swap := by
  unfold places?
  cases place? l <;> cases place? r <;> rfl

theorem places?_isSome : (places? l r).isSome = ((number? l).isSome && (number? r).isSome) := by
  unfold places? place?
  cases number? l <;> cases number? r <;> rfl

theorem places?_eq_some {p : Int × Int} :
    places? l r = some p ↔ place? l = some p.1 ∧ place? r = some p.2 := by
  unfold places?
  cases place? l <;> cases place? r <;> simp [Prod.ext_iff]

theorem compare_ordering (hc : c.isOrdering = true) :
    compare l r c = (places? l r).any c.ofPlaces := by
  rw [compare, if_pos hc, places?, place?, place?]
  cases hl : number? l with
  | none => rfl
  | some x =>
    cases hr : number? r with
    | none => rfl
    | some y =>
      have hx := number?_isNan hl
      have hy := number?_isNan hr
      cases c <;> simp [Comparator.orders, Comparator.ofPlaces, Binary64.lt, Binary64.le, hx, hy]

theorem compare_textual (hc : c.isOrdering = false) :
    compare l r c =
      if isTruthValue l || isTruthValue r then c.relates (isTrue l) (isTrue r)
      else c.matches l r := by
  rw [compare, if_neg (by rw [hc]; exact Bool.false_ne_true)]

namespace Comparator

theorem mirror_isOrdering (c : Comparator) : c.mirror.isOrdering = c.isOrdering := by
  cases c <;> rfl

theorem mirror_ofPlaces (c : Comparator) (p : Int × Int) :
    c.mirror.ofPlaces p.swap = c.ofPlaces p := by
  cases c <;> rfl

theorem mirror_relates (c : Comparator) (a b : Bool) : c.mirror.relates b a = c.relates a b := by
  cases c <;> cases a <;> cases b <;> rfl

theorem mirror_matches (c : Comparator) (l r : Text) : c.mirror.matches r l = c.matches l r := by
  cases c with
  | equal => exact BEq.comm
  | unequal => exact congrArg not BEq.comm
  | _ => rfl

end Comparator

/-- When the operands change places, the mirror image of the comparator says the same. -/
theorem compare_mirror (l r : Text) (c : Comparator) : compare r l c.mirror = compare l r c := by
  cases hc : c.isOrdering with
  | true =>
    have hmirror : c.mirror.isOrdering = true := by rw [c.mirror_isOrdering, hc]
    rw [compare_ordering hmirror, compare_ordering hc, places?_mirror, Option.any_map]
    simp only [c.mirror_ofPlaces]
  | false =>
    have hmirror : c.mirror.isOrdering = false := by rw [c.mirror_isOrdering, hc]
    rw [compare_textual hmirror, compare_textual hc, Bool.or_comm, c.mirror_relates,
      c.mirror_matches]

namespace Comparator

theorem opposite_isOrdering (c : Comparator) : c.opposite.isOrdering = c.isOrdering := by
  cases c <;> rfl

theorem opposite_tells (c : Comparator) (l r : Text) : c.opposite.tells l r = c.tells l r := by
  cases c <;> rfl

theorem opposite_ofPlaces (hc : c.isOrdering = true) (p : Int × Int) :
    c.opposite.ofPlaces p = !c.ofPlaces p := by
  cases c with
  | greater | greaterEq | less | lessEq => grind [opposite, ofPlaces]
  | _ => cases hc

theorem opposite_matches (hc : c.isOrdering = false) (l r : Text) :
    c.opposite.matches l r = !c.matches l r := by
  cases c with
  | greater | greaterEq | less | lessEq => cases hc
  | equal | contains | within => rfl
  | unequal | lacks | outside => exact (Bool.not_not _).symm

theorem opposite_relates (hc : c.isOrdering = false) (h : c.tells l r = true)
    (htruth : (isTruthValue l || isTruthValue r) = true) (a b : Bool) :
    c.opposite.relates a b = !c.relates a b := by
  cases c with
  | equal | unequal => cases a <;> cases b <;> rfl
  | contains | lacks | within | outside =>
    rw [tells, htruth] at h
    cases h
  | _ => cases hc

theorem tells_ordering (hc : c.isOrdering = true) : c.tells l r = (places? l r).isSome := by
  cases c with
  | greater | greaterEq | less | lessEq => exact places?_isSome.symm
  | _ => cases hc

end Comparator

/-- Of operands of which a comparator tells nothing, it does not hold. -/
theorem compare_untold (h : c.tells l r = false) : compare l r c = false := by
  cases hc : c.isOrdering with
  | true =>
    rw [Comparator.tells_ordering hc, Option.isSome_eq_false_iff, Option.isNone_iff_eq_none] at h
    rw [compare_ordering hc, h]
    rfl
  | false =>
    cases c with
    | contains | lacks | within | outside =>
      have htruth : (isTruthValue l || isTruthValue r) = true := by
        simpa only [Comparator.tells, Bool.not_eq_false'] using h
      rw [compare_textual hc, if_pos htruth]
      rfl
    | equal | unequal => cases h
    | _ => cases hc

/-- Of operands of which a comparator tells something, either it holds or its opposite does. -/
theorem compare_opposite (h : c.tells l r = true) :
    compare l r c.opposite = !compare l r c := by
  cases hc : c.isOrdering with
  | true =>
    have hopposite : c.opposite.isOrdering = true := by rw [c.opposite_isOrdering, hc]
    rw [Comparator.tells_ordering hc, Option.isSome_iff_exists] at h
    obtain ⟨p, hp⟩ := h
    rw [compare_ordering hopposite, compare_ordering hc, hp]
    exact Comparator.opposite_ofPlaces hc p
  | false =>
    have hopposite : c.opposite.isOrdering = false := by rw [c.opposite_isOrdering, hc]
    rw [compare_textual hopposite, compare_textual hc]
    split
    · rename_i htruth
      exact Comparator.opposite_relates hc h htruth ..
    · exact Comparator.opposite_matches hc l r

/-- Of two numbers the first one is less, or greater, or in the same place. -/
theorem compare_trichotomy (l r : Text) :
    [compare l r .less, compare l r .greater,
      compare l r .lessEq && compare l r .greaterEq].count true =
        if Comparator.less.tells l r then 1 else 0 := by
  rw [Comparator.tells_ordering rfl, compare_ordering rfl, compare_ordering rfl,
    compare_ordering rfl, compare_ordering rfl]
  cases places? l r with
  | none => rfl
  | some p =>
    simp only [Option.any_some, Option.isSome_some, if_true, Comparator.ofPlaces]
    rcases Int.lt_trichotomy p.1 p.2 with hlt | heq | hgt
    · have hnot : ¬ p.2 ≤ p.1 := by omega
      simp [hlt, hnot, Int.le_of_lt hlt]
    · simp [heq]
    · have hnot : ¬ p.1 ≤ p.2 := by omega
      simp [hgt, hnot, Int.le_of_lt hgt]

theorem compare_ordering_trans (hc : c.isOrdering = true)
    (htrans : ∀ x y z, c.ofPlaces (x, y) = true → c.ofPlaces (y, z) = true →
      c.ofPlaces (x, z) = true) :
    IsTrans Text fun l r => compare l r c = true where
  trans l m r hlm hmr := by
    rw [compare_ordering hc, Option.any_eq_true] at hlm hmr
    obtain ⟨⟨x, y⟩, hxy, hlm⟩ := hlm
    obtain ⟨⟨y', z⟩, hyz, hmr⟩ := hmr
    obtain ⟨hl, hm⟩ := places?_eq_some.mp hxy
    obtain ⟨hm', hr⟩ := places?_eq_some.mp hyz
    -- the text in the middle has one place
    obtain rfl : y = y' := Option.some.inj (hm.symm.trans hm')
    have hplaces : places? l r = some (x, z) := places?_eq_some.mpr ⟨hl, hr⟩
    rw [compare_ordering hc, hplaces]
    exact htrans x y z hlm hmr

theorem less_isTrans : IsTrans Text fun l r => compare l r .less = true :=
  compare_ordering_trans rfl fun _ _ _ hxy hyz =>
    decide_eq_true (Int.lt_trans (of_decide_eq_true hxy) (of_decide_eq_true hyz))

theorem lessEq_isTrans : IsTrans Text fun l r => compare l r .lessEq = true :=
  compare_ordering_trans rfl fun _ _ _ hxy hyz =>
    decide_eq_true (Int.le_trans (of_decide_eq_true hxy) (of_decide_eq_true hyz))

end

abbrev PlainText := { t : Text // isTruthValue t = false }

theorem compare_plain {c : Comparator} (hc : c.isOrdering = false) (l r : PlainText) :
    compare l.1 r.1 c = c.matches l.1 r.1 := by
  rw [compare_textual hc, l.2, r.2]
  rfl

theorem contains_plain_iff (l r : PlainText) :
    compare l.1 r.1 .contains = true ↔ r.1 <:+: l.1 := by
  rw [compare_plain rfl]
  exact Text.holds_iff

theorem equal_plain_iff (l r : PlainText) : compare l.1 r.1 .equal = true ↔ l = r := by
  rw [compare_plain rfl, Subtype.ext_iff]
  exact beq_iff_eq

theorem contains_isPartialOrder :
    IsPartialOrder PlainText fun l r => compare l.1 r.1 .contains = true where
  refl l := (contains_plain_iff l l).mpr List.infix_rfl
  trans l m r hlm hmr := by
    rw [contains_plain_iff] at hlm hmr ⊢
    exact hmr.trans hlm
  antisymm l r hlr hrl := by
    rw [contains_plain_iff] at hlr hrl
    exact Subtype.ext (List.infix_antisymm hrl hlr)

theorem compare_self (l : Text) : compare l l .equal = true := by
  rw [compare_textual rfl]
  split <;> exact beq_self_eq_true _

/-- The laws that comparisons of any texts obey. -/
theorem comparison_laws :
    (∀ l r c, compare r l (Comparator.mirror c) = compare l r c) ∧
    (∀ l r c, if Comparator.tells c l r then compare l r c.opposite = !compare l r c
      else compare l r c = false ∧ compare l r c.opposite = false) ∧
    (∀ l, compare l l .equal = true) ∧
    (∀ l r, [compare l r .less, compare l r .greater,
      compare l r .lessEq && compare l r .greaterEq].count true =
        if Comparator.less.tells l r then 1 else 0) ∧
    IsTrans Text (fun l r => compare l r .less = true) ∧
    IsTrans Text (fun l r => compare l r .lessEq = true) ∧
    IsPartialOrder PlainText (fun l r => compare l.1 r.1 .contains = true) ∧
    ∀ l r : PlainText, compare l.1 r.1 .equal = true ↔ l = r := by
  refine ⟨compare_mirror, fun l r c => ?_, compare_self, compare_trichotomy, less_isTrans,
    lessEq_isTrans, contains_isPartialOrder, equal_plain_iff⟩
  split
  · rename_i htells
    exact compare_opposite htells
  · rename_i htells
    have huntold : c.tells l r = false := Bool.eq_false_iff.mpr htells
    have hopposite : c.opposite.tells l r = false := by rw [c.opposite_tells, huntold]
    exact ⟨compare_untold huntold, compare_untold hopposite⟩

-- one number in two spellings: neither is less, and yet they are not equal
example : compare "0".toList "-0.0".toList .lessEq = true ∧
    compare "-0.0".toList "0".toList .lessEq = true ∧
      compare "0".toList "-0.0".toList .equal = false := by
  decide +kernel

end Expression

end Conditions
