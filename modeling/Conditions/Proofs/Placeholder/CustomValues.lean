import Conditions.Proofs.Placeholder.Passes
import Mathlib.Data.List.Basic

/-!
# Custom values

Custom values are put in entry by entry, so an entry may find its key in what the entries in front
of it have put in. As long as that does not happen, the text is the one in which all keys of the
original text have got their values at once, and the order of the entries does not matter.
-/

set_option autoImplicit false

namespace Conditions.Placeholder

variable {κ σ : Type}

def isInside (c : Char) : Bool := c != '{' && c != '}'

def Braceless (key : Text) : Prop := ∀ c ∈ key, isInside c = true

instance (key : Text) : Decidable (Braceless key) :=
  decidable_of_iff (key.all isInside = true) List.all_eq_true

def key? (t : Text) : Option (Text × Text) :=
  match t.dropWhile isInside with
  | [] => none
  | c :: rest => if c = '}' then some (t.takeWhile isInside, rest) else none

theorem key?_eq_some_iff {t key after : Text} :
    key? t = some (key, after) ↔ Braceless key ∧ t = key ++ '}' :: after := by
  constructor
  · intro h
    have happend := List.takeWhile_append_dropWhile (p := isInside) (l := t)
    unfold key? at h
    split at h
    · cases h
    · rename_i c rest hdrop
      simp only [Option.ite_none_right_eq_some, Option.some.injEq, Prod.mk.injEq] at h
      obtain ⟨rfl, rfl, rfl⟩ := h
      rw [hdrop] at happend
      exact ⟨List.all_eq_true.mp List.all_takeWhile, happend.symm⟩
  · rintro ⟨hkey, rfl⟩
    have hclosing : isInside '}' = false := rfl
    unfold key?
    rw [List.takeWhile_append_of_pos hkey, List.dropWhile_append_of_pos hkey,
      List.dropWhile_cons_of_neg (by simp [hclosing]),
      List.takeWhile_cons_of_neg (by simp [hclosing])]
    simp

def slots : Text → List Piece
  | [] => []
  | c :: rest =>
    if c = '{' then
      match _h : key? rest with
      | some (key, after) => .reference key :: slots after
      | none => .plain c :: slots rest
    else .plain c :: slots rest
termination_by t => t.length
decreasing_by
  · have hlength := congrArg List.length (key?_eq_some_iff.mp _h).2
    simp only [List.length_append, List.length_cons] at hlength ⊢
    omega
  · exact Nat.lt_succ_self _
  · exact Nat.lt_succ_self _

section
variable {c : Char} {t key after : Text}

theorem verbatim_append (key after : Text) :
    brace.verbatim (.reference key) ++ after = '{' :: (key ++ '}' :: after) := by
  simp [Style.verbatim, brace]

theorem slots_key (hkey : Braceless key) (after : Text) :
    slots (brace.verbatim (.reference key) ++ after) = .reference key :: slots after := by
  have hfound : key? (key ++ '}' :: after) = some (key, after) := key?_eq_some_iff.mpr ⟨hkey, rfl⟩
  rw [verbatim_append, slots, if_pos rfl]
  split
  · rename_i found hfound'
    rw [hfound] at hfound'
    cases hfound'
    rfl
  · rename_i hnone
    rw [hfound] at hnone
    cases hnone

theorem slots_plain (h : c = '{' → key? t = none) : slots (c :: t) = .plain c :: slots t := by
  rw [slots]
  split
  · rename_i hc
    split
    · rename_i hfound
      rw [h hc] at hfound
      cases hfound
    · rfl
  · rfl

theorem flatMap_slots (t : Text) : (slots t).flatMap brace.verbatim = t := by
  fun_induction slots t with
  | case1 => rfl
  | case2 rest key after hkey ih =>
    rw [List.flatMap_cons, ih, (key?_eq_some_iff.mp hkey).2, verbatim_append]
  | case3 rest hkey ih => rw [List.flatMap_cons, ih]; rfl
  | case4 c rest hc ih => rw [List.flatMap_cons, ih]; rfl

/-- In front of an opening brace a key is over, and so is the search for its closing brace. -/
theorem key?_append (t u : Text) :
    key? (t ++ '{' :: u) = (key? t).map fun (key, after) => (key, after ++ '{' :: u) := by
  have hstop : isInside '{' = false := rfl
  have htake : (t ++ '{' :: u).takeWhile isInside = t.takeWhile isInside := by
    induction t with
    | nil => simp [hstop]
    | cons c t ih => simp only [List.cons_append, List.takeWhile_cons, ih]
  unfold key?
  rw [htake, List.dropWhile_append]
  cases hdrop : t.dropWhile isInside with
  | nil => simp [hstop]
  | cons c rest =>
    simp only [List.isEmpty_cons, Bool.false_eq_true, if_false, List.cons_append]
    split <;> rfl

theorem slots_append (hkey : Braceless key) (t u : Text) :
    slots (t ++ brace.verbatim (.reference key) ++ u) = slots t ++ .reference key :: slots u := by
  rw [List.append_assoc]
  fun_induction slots t with
  | case1 => exact slots_key hkey u
  | case2 rest key' after hfound ih =>
    obtain ⟨hkey', rfl⟩ := key?_eq_some_iff.mp hfound
    rw [← verbatim_append, List.append_assoc, slots_key hkey', ih]
    rfl
  | case3 rest hfound ih =>
    have hlonger : key? (rest ++ (brace.verbatim (.reference key) ++ u)) = none := by
      rw [verbatim_append, key?_append, hfound]
      rfl
    rw [List.cons_append, slots_plain fun _ => hlonger, ih]
    rfl
  | case4 c rest hc ih =>
    rw [List.cons_append, slots_plain fun hopen => absurd hopen hc, ih]
    rfl

end

section
variable (old new : Text)

variable {old} in
theorem replace_go_miss {c : Char} {t : Text} (h : ¬ old <+: c :: t) :
    Text.replace.go old new 0 (c :: t) = c :: Text.replace.go old new 0 t := by
  have hprefix : old.isPrefixOf (c :: t) = false := by
    rwa [← Bool.not_eq_true, List.isPrefixOf_iff_prefix]
  rw [Text.replace.go, hprefix, Bool.and_false, if_neg Bool.false_ne_true]

theorem replace_go_skip (skipped t : Text) :
    Text.replace.go old new skipped.length (skipped ++ t) = Text.replace.go old new 0 t := by
  induction skipped with
  | nil => rfl
  | cons c skipped ih => exact ih

variable {old} in
theorem replace_go_hit (h : old ≠ []) (t : Text) :
    Text.replace.go old new 0 (old ++ t) = new ++ Text.replace.go old new 0 t := by
  cases old with
  | nil => exact absurd rfl h
  | cons c old =>
    have hprefix : (c :: old).isPrefixOf (c :: (old ++ t)) = true :=
      List.isPrefixOf_iff_prefix.mpr ⟨t, rfl⟩
    rw [List.cons_append, Text.replace.go, hprefix, List.isEmpty_cons, if_pos (by rfl)]
    exact congrArg (new ++ ·) (replace_go_skip _ new old t)

end

section
variable {key : Text}

theorem replace_go_inside (value : Text) {inside : Text} (h : '{' ∉ inside) (t : Text) :
    Text.replace.go (brace.verbatim (.reference key)) value 0 (inside ++ t) =
      inside ++ Text.replace.go (brace.verbatim (.reference key)) value 0 t := by
  induction inside with
  | nil => rfl
  | cons c inside ih =>
    rw [List.mem_cons, not_or] at h
    have hmiss : ¬ brace.verbatim (.reference key) <+: c :: (inside ++ t) := by
      rintro ⟨u, hu⟩
      exact h.1 (List.head_eq_of_cons_eq hu)
    rw [List.cons_append, replace_go_miss value hmiss, ih h.2]
    rfl

/-- Replacing a key in braces replaces exactly the pieces with that key. -/
theorem replace_eq (hkey : Braceless key) (value t : Text) :
    Text.replace (brace.verbatim (.reference key)) value t =
      (slots t).flatMap fun p => if p = .reference key then value else brace.verbatim p := by
  unfold Text.replace
  fun_induction slots t with
  | case1 => rfl
  | case2 rest key' after hfound ih =>
    obtain ⟨hkey', rfl⟩ := key?_eq_some_iff.mp hfound
    rw [List.flatMap_cons, ← ih]
    have hinside : '{' ∉ key' ++ ['}'] := by
      intro hmem
      rcases List.mem_append.mp hmem with hmem | hmem
      · exact absurd (hkey' _ hmem) (by decide)
      · exact absurd hmem (by decide)
    by_cases heq : key' = key
    · subst heq
      rw [if_pos rfl, ← verbatim_append]
      exact replace_go_hit value (List.cons_ne_nil _ _) after
    · have hmiss : ¬ brace.verbatim (.reference key) <+: '{' :: (key' ++ '}' :: after) := by
        rintro ⟨u, hu⟩
        have hslots := congrArg slots hu
        rw [slots_key hkey, ← verbatim_append, slots_key hkey'] at hslots
        exact heq (Piece.reference.inj (List.head_eq_of_cons_eq hslots)).symm
      have hrest : key' ++ '}' :: after = (key' ++ ['}']) ++ after := by simp
      rw [replace_go_miss value hmiss, hrest, replace_go_inside value hinside, if_neg]
      · rfl
      · rintro ⟨⟩
        exact heq rfl
  | case3 rest hfound ih =>
    have hmiss : ¬ brace.verbatim (.reference key) <+: '{' :: rest := by
      rintro ⟨u, hu⟩
      have hrest : rest = key ++ '}' :: u := by simpa [Style.verbatim, brace] using hu.symm
      rw [key?_eq_some_iff.mpr ⟨hkey, hrest⟩] at hfound
      cases hfound
    rw [replace_go_miss value hmiss, ih]
    rfl
  | case4 c rest hc ih =>
    have hmiss : ¬ brace.verbatim (.reference key) <+: c :: rest := by
      rintro ⟨u, hu⟩
      exact hc (List.head_eq_of_cons_eq hu).symm
    rw [replace_go_miss value hmiss, ih]
    rfl

def references (key t : Text) : Nat := (slots t).count (.reference key)

theorem references_append (hkey : Braceless key) (t u : Text) :
    references key (t ++ brace.verbatim (.reference key) ++ u) =
      references key t + (references key u + 1) := by
  rw [references, slots_append hkey, List.count_append, List.count_cons_self]
  rfl

theorem replace_none (hkey : Braceless key) (value : Text) {t : Text}
    (h : references key t = 0) : Text.replace (brace.verbatim (.reference key)) value t = t := by
  have hnot : .reference key ∉ slots t := List.count_eq_zero.mp h
  have hsame : ∀ p ∈ slots t, (if p = .reference key then value else brace.verbatim p) =
      brace.verbatim p := by
    intro p hp
    refine if_neg fun heq => hnot ?_
    rwa [← heq]
  rw [replace_eq hkey, List.flatMap_congr hsame, flatMap_slots]

theorem replace_append (hkey : Braceless key) (value t u : Text) :
    Text.replace (brace.verbatim (.reference key)) value
        (t ++ brace.verbatim (.reference key) ++ u) =
      Text.replace (brace.verbatim (.reference key)) value t ++ value ++
        Text.replace (brace.verbatim (.reference key)) value u := by
  rw [replace_eq hkey, replace_eq hkey, replace_eq hkey, slots_append hkey]
  simp

/-- Pieces are shown in some way behind some text, those with the key as they are. If the key stands
nowhere else, just these pieces are replaced. -/
theorem replace_pieces (hkey : Braceless key) (value : Text) {shown : Piece → Text}
    (hshown : shown (.reference key) = brace.verbatim (.reference key)) (t : Text)
    (pieces : List Piece) :
    pieces.count (.reference key) ≤ references key (t ++ pieces.flatMap shown) ∧
      (references key (t ++ pieces.flatMap shown) = pieces.count (.reference key) →
        Text.replace (brace.verbatim (.reference key)) value (t ++ pieces.flatMap shown) =
          t ++ pieces.flatMap fun p => if p = .reference key then value else shown p) := by
  induction pieces generalizing t with
  | nil =>
    refine ⟨Nat.zero_le _, fun hnone => ?_⟩
    rw [List.flatMap_nil, List.flatMap_nil, List.append_nil] at *
    exact replace_none hkey value hnone
  | cons p pieces ih =>
    by_cases hp : p = .reference key
    · subst hp
      obtain ⟨hleast, hexact⟩ := ih []
      rw [List.nil_append] at hleast hexact
      rw [List.flatMap_cons, List.flatMap_cons, hshown, ← List.append_assoc,
        references_append hkey, List.count_cons_self, if_pos rfl]
      refine ⟨by omega, fun hcount => ?_⟩
      -- the references in front of the piece and behind it have to be as few as possible
      rw [replace_append hkey, replace_none hkey value (by omega), hexact (by omega)]
      simp
    · rw [List.flatMap_cons, List.flatMap_cons, ← List.append_assoc, ← List.append_assoc,
        List.count_cons_of_ne hp, if_neg hp]
      exact ih (t ++ shown p)

end

def putIn (custom : Dictionary Text Text) (t : Text) : Text :=
  (slots t).flatMap (brace.shown (Dictionary.find? custom))

/-- No entry finds its key in what the entries in front of it have put in: the key stands in the
text so far as often as it did in the original text. -/
def Fresh (custom : Dictionary Text Text) (t : Text) : Prop :=
  ∀ i, (h : i < custom.length) →
    references custom[i].1 (applyCustom (custom.take i) t) = references custom[i].1 t

instance (custom : Dictionary Text Text) (t : Text) : Decidable (Fresh custom t) :=
  inferInstanceAs (Decidable (∀ i, (h : i < custom.length) →
    references custom[i].1 (applyCustom (custom.take i) t) = references custom[i].1 t))

section
variable {custom : Dictionary Text Text} {key value t : Text}

theorem applyCustom_concat (custom : Dictionary Text Text) (key value t : Text) :
    applyCustom (custom ++ [(key, value)]) t =
      Text.replace (brace.verbatim (.reference key)) value (applyCustom custom t) :=
  List.foldl_append

theorem fresh_concat : Fresh (custom ++ [(key, value)]) t ↔
    Fresh custom t ∧ references key (applyCustom custom t) = references key t := by
  constructor
  · intro h
    constructor
    · intro i hi
      have hentry := h i (by rw [List.length_append]; omega)
      rwa [List.getElem_append_left hi, List.take_append_of_le_length (Nat.le_of_lt hi)] at hentry
    · have hentry := h custom.length (by simp)
      simpa using hentry
  · rintro ⟨hfront, hlast⟩ i hi
    rw [List.length_append, List.length_singleton] at hi
    rcases Nat.lt_succ_iff_lt_or_eq.mp hi with hlt | rfl
    · rw [List.getElem_append_left hlt, List.take_append_of_le_length (Nat.le_of_lt hlt)]
      exact hfront i hlt
    · simpa using hlast

theorem putIn_concat (hnew : key ∉ Dictionary.keys custom) (value t : Text) :
    putIn (custom ++ [(key, value)]) t = (slots t).flatMap fun p =>
      if p = .reference key then value else brace.shown (Dictionary.find? custom) p := by
  refine List.flatMap_congr fun p _ => ?_
  cases p with
  | plain c => rfl
  | reference key' =>
    unfold Style.shown
    dsimp only
    rw [Dictionary.find?_append, Dictionary.find?_cons]
    by_cases heq : key' = key
    · subst heq
      rw [Dictionary.find?_eq_none_iff.mpr hnew]
      simp
    · simp [heq]

theorem shown_reference (hnew : key ∉ Dictionary.keys custom) :
    brace.shown (Dictionary.find? custom) (.reference key) = brace.verbatim (.reference key) := by
  rw [Style.shown, Dictionary.find?_eq_none_iff.mpr hnew]
  rfl

theorem references_le_putIn (hkey : Braceless key) (hnew : key ∉ Dictionary.keys custom)
    (t : Text) : references key t ≤ references key (putIn custom t) :=
  (replace_pieces hkey [] (shown_reference hnew) [] (slots t)).1

theorem putIn_step (hkey : Braceless key) (hnew : key ∉ Dictionary.keys custom) (value : Text)
    (hfresh : references key (putIn custom t) = references key t) :
    Text.replace (brace.verbatim (.reference key)) value (putIn custom t) =
      putIn (custom ++ [(key, value)]) t := by
  rw [putIn_concat hnew]
  exact (replace_pieces hkey value (shown_reference hnew) [] (slots t)).2 hfresh

structure Keyed (custom : Dictionary Text Text) : Prop where
  braceless : ∀ key ∈ Dictionary.keys custom, Braceless key
  nodup : (Dictionary.keys custom).Nodup

theorem keyed_concat (h : Keyed (custom ++ [(key, value)])) :
    Keyed custom ∧ Braceless key ∧ key ∉ Dictionary.keys custom := by
  obtain ⟨hkeys, hnodup⟩ := h
  have hconcat : Dictionary.keys (custom ++ [(key, value)]) = Dictionary.keys custom ++ [key] :=
    List.map_append
  rw [hconcat] at hkeys hnodup
  obtain ⟨hnodup', -, hnew⟩ := List.nodup_append.mp hnodup
  have hlast : key ∈ Dictionary.keys custom ++ [key] := by simp
  refine ⟨⟨fun k hk => hkeys k (List.mem_append_left _ hk), hnodup'⟩, hkeys key hlast, ?_⟩
  exact fun hmem => hnew key hmem key (List.mem_singleton_self key) rfl

/-- Entry by entry is all at once, as long as every entry finds what was there from the start. -/
theorem Fresh.applyCustom_eq (h : Fresh custom t) (hcustom : Keyed custom) :
    applyCustom custom t = putIn custom t := by
  induction custom using List.reverseRecOn with
  | nil => exact (flatMap_slots t).symm.trans (List.flatMap_congr fun p _ => by cases p <;> rfl)
  | append_singleton custom entry ih =>
    obtain ⟨key, value⟩ := entry
    obtain ⟨hfront, hlast⟩ := fresh_concat.mp h
    obtain ⟨hcustom', hkey, hnew⟩ := keyed_concat hcustom
    have htext := ih hfront hcustom'
    rw [htext] at hlast
    rw [applyCustom_concat, htext, putIn_step hkey hnew value hlast]

end

/-- Otherwise there is an entry up to which all is well, and for which keys have been made up. -/
theorem exists_made_up {custom : Dictionary Text Text} {t : Text} (hcustom : Keyed custom)
    (h : ¬ Fresh custom t) :
    ∃ front key value back, custom = front ++ (key, value) :: back ∧
      applyCustom front t = putIn front t ∧ references key t < references key (putIn front t) := by
  induction custom using List.reverseRecOn with
  | nil => exact absurd (fun i hi => absurd hi (Nat.not_lt_zero i)) h
  | append_singleton custom entry ih =>
    obtain ⟨key, value⟩ := entry
    obtain ⟨hcustom', hkey, hnew⟩ := keyed_concat hcustom
    by_cases hfront : Fresh custom t
    · have htext := hfront.applyCustom_eq hcustom'
      have hmore : references key (putIn custom t) ≠ references key t := fun hsame =>
        h (fresh_concat.mpr ⟨hfront, htext ▸ hsame⟩)
      have hleast := references_le_putIn hkey hnew t
      exact ⟨custom, key, value, [], rfl, htext, by omega⟩
    · obtain ⟨front, key', value', back, rfl, hrest⟩ := ih hcustom' hfront
      exact ⟨front, key', value', back ++ [(key, value)], by simp, hrest⟩

/-- Where all values are put in at once, the order of the entries does not matter. -/
theorem putIn_perm {custom order : Dictionary Text Text} (horder : order.Perm custom)
    (hnodup : (Dictionary.keys custom).Nodup) (t : Text) : putIn order t = putIn custom t := by
  have hkeys : (Dictionary.keys order).Perm (Dictionary.keys custom) := horder.map _
  have hfind : Dictionary.find? order = Dictionary.find? custom := by
    funext key
    cases hfound : Dictionary.find? custom key with
    | none =>
      rw [Dictionary.find?_eq_none_iff] at hfound ⊢
      rwa [hkeys.mem_iff]
    | some value =>
      have hmem := horder.mem_iff.mpr (Dictionary.mem_of_find? hfound)
      exact Dictionary.find?_of_mem (hkeys.nodup_iff.mpr hnodup) hmem
  rw [putIn, putIn, hfind]

def Flat (t : Text) : Prop := .plain '{' ∉ slots t

/-- Pieces with all their braces around keys are what their text is cut into. -/
theorem slots_of_flat {pieces : List Piece} (hflat : .plain '{' ∉ pieces)
    (hkeys : ∀ key, .reference key ∈ pieces → Braceless key) :
    slots (pieces.flatMap brace.verbatim) = pieces := by
  induction pieces with
  | nil => rw [List.flatMap_nil, slots]
  | cons p pieces ih =>
    rw [List.mem_cons, not_or] at hflat
    have hrest := ih hflat.2 fun key hmem => hkeys key (List.mem_cons_of_mem p hmem)
    rw [List.flatMap_cons]
    cases p with
    | plain c =>
      have hc : c ≠ '{' := fun hc => hflat.1 (hc ▸ rfl)
      change slots (c :: pieces.flatMap brace.verbatim) = _
      rw [slots_plain fun hopen => absurd hopen hc, hrest]
    | reference key => rw [slots_key (hkeys key List.mem_cons_self), hrest]

theorem braceless_of_slots {key t : Text} (h : .reference key ∈ slots t) : Braceless key := by
  fun_induction slots t with
  | case1 => cases h
  | case2 rest key' after hfound ih =>
    rcases List.mem_cons.mp h with heq | hmem
    · cases heq
      exact (key?_eq_some_iff.mp hfound).1
    · exact ih hmem
  | case3 rest hfound ih => exact ih ((List.mem_cons.mp h).resolve_left (by simp))
  | case4 c rest hc ih => exact ih ((List.mem_cons.mp h).resolve_left (by simp))

section
variable {custom : Dictionary Text Text} {t : Text}

def valuePieces (custom : Dictionary Text Text) : Piece → List Piece
  | .plain c => [.plain c]
  | .reference key => match Dictionary.find? custom key with
    | some value => value.map .plain
    | none => [.reference key]

theorem flatMap_valuePieces (custom : Dictionary Text Text) (p : Piece) :
    (valuePieces custom p).flatMap brace.verbatim = brace.shown (Dictionary.find? custom) p := by
  cases p with
  | plain c => rfl
  | reference key =>
    unfold valuePieces Style.shown
    dsimp only
    cases Dictionary.find? custom key with
    | none => exact List.flatMap_singleton ..
    | some value =>
      rw [List.flatMap_map]
      exact List.flatMap_singleton' value

theorem plain_mem_valuePieces (hvalues : ∀ e ∈ custom, Braceless e.2) {p : Piece}
    (h : .plain '{' ∈ valuePieces custom p) : p = .plain '{' := by
  cases p with
  | plain c => exact (List.mem_singleton.mp h).symm
  | reference key =>
    unfold valuePieces at h
    dsimp only at h
    split at h
    · rename_i value hfound
      obtain ⟨c, hc, heq⟩ := List.mem_map.mp h
      cases heq
      exact absurd (hvalues _ (Dictionary.mem_of_find? hfound) _ hc) (by decide)
    · cases List.mem_singleton.mp h

theorem reference_mem_valuePieces {key : Text} {p : Piece}
    (h : .reference key ∈ valuePieces custom p) : p = .reference key := by
  cases p with
  | plain c => cases List.mem_singleton.mp h
  | reference key' =>
    unfold valuePieces at h
    dsimp only at h
    split at h
    · simp at h
    · exact (List.mem_singleton.mp h).symm

theorem slots_putIn (hflat : Flat t) (hvalues : ∀ e ∈ custom, Braceless e.2) :
    slots (putIn custom t) = (slots t).flatMap (valuePieces custom) := by
  have hpieces : putIn custom t =
      ((slots t).flatMap (valuePieces custom)).flatMap brace.verbatim := by
    rw [putIn, List.flatMap_assoc]
    exact List.flatMap_congr fun p _ => (flatMap_valuePieces custom p).symm
  rw [hpieces, slots_of_flat]
  · intro hmem
    obtain ⟨p, hp, hopening⟩ := List.mem_flatMap.mp hmem
    exact hflat (plain_mem_valuePieces hvalues hopening ▸ hp)
  · intro key hmem
    obtain ⟨p, hp, hkey⟩ := List.mem_flatMap.mp hmem
    exact braceless_of_slots (reference_mem_valuePieces hkey ▸ hp)

theorem count_valuePieces {key : Text} (hnew : key ∉ Dictionary.keys custom) (p : Piece) :
    (valuePieces custom p).count (.reference key) = [p].count (.reference key) := by
  by_cases hp : p = .reference key
  · subst hp
    rw [valuePieces, Dictionary.find?_eq_none_iff.mpr hnew]
  · rw [List.count_eq_zero.mpr fun hmem => hp (reference_mem_valuePieces hmem),
      List.count_eq_zero.mpr fun hmem => hp (List.mem_singleton.mp hmem).symm]

theorem references_putIn (hflat : Flat t) (hvalues : ∀ e ∈ custom, Braceless e.2) {key : Text}
    (hnew : key ∉ Dictionary.keys custom) : references key (putIn custom t) = references key t := by
  unfold references
  rw [slots_putIn hflat hvalues]
  induction slots t with
  | nil => rfl
  | cons p pieces ih =>
    rw [List.flatMap_cons, List.count_append, ih, count_valuePieces hnew, ← List.count_append]
    rfl

theorem fresh_of_flat (hflat : Flat t) (hcustom : Keyed custom)
    (hvalues : ∀ e ∈ custom, Braceless e.2) : Fresh custom t := by
  induction custom using List.reverseRecOn with
  | nil => exact fun i hi => absurd hi (Nat.not_lt_zero i)
  | append_singleton custom entry ih =>
    obtain ⟨hcustom', -, hnew⟩ := keyed_concat hcustom
    have hvalues' : ∀ e ∈ custom, Braceless e.2 := fun e he => hvalues e (List.mem_append_left _ he)
    have hfront := ih hcustom' hvalues'
    refine fresh_concat.mpr ⟨hfront, ?_⟩
    rw [hfront.applyCustom_eq hcustom', references_putIn hflat hvalues' hnew]

end

/-- For every order of the entries of a mapping there are two cases. Either no entry finds its key
in what others have put in: then the values stand in place of the keys of the original text as if
they were put in at once, before any handler is asked, so all such orders come to the same. Or
there is an entry for which the others have made up keys, and which rewrites what they have put in.
The first case is that of every order if values have no braces and the text has no nested ones. -/
theorem custom_values_at_once {custom : Dictionary Text Text} (hcustom : Keyed custom) (t : Text) :
    (∀ order, order.Perm custom →
      (Fresh order t → applyCustom order t = putIn custom t ∧
        ∀ (r : Registry κ σ) (caller : κ) (s : σ),
          r.reply order caller t s = r.reply [] caller (putIn custom t) s) ∧
      (¬ Fresh order t → ∃ front key value back, order = front ++ (key, value) :: back ∧
        applyCustom front t = putIn front t ∧
        references key t < references key (putIn front t))) ∧
    (Flat t → (∀ e ∈ custom, Braceless e.2) → ∀ order, order.Perm custom → Fresh order t) := by
  have hordered : ∀ order, order.Perm custom → Keyed order := by
    intro order horder
    have hkeys : (Dictionary.keys order).Perm (Dictionary.keys custom) := horder.map _
    exact ⟨fun key hkey => hcustom.braceless key (hkeys.mem_iff.mp hkey),
      hkeys.nodup_iff.mpr hcustom.nodup⟩
  constructor
  · intro order horder
    refine ⟨fun hfresh => ?_, exists_made_up (hordered order horder)⟩
    have htext : applyCustom order t = putIn custom t :=
      (hfresh.applyCustom_eq (hordered order horder)).trans (putIn_perm horder hcustom.nodup t)
    refine ⟨htext, fun r caller s => ?_⟩
    unfold Registry.reply expand
    rw [htext]
    rfl
  · intro hflat hvalues order horder
    exact fresh_of_flat hflat (hordered order horder) fun e he =>
      hvalues e (horder.mem_iff.mp he)

/-- A value in braces that is no key, and a key whose value is nothing. -/
theorem custom_values_swapped :
    let custom : Dictionary Text Text := [(['a'], "{c}".toList), (['b'], [])]
    Keyed custom ∧ Fresh custom "{a}{{b}d}".toList ∧ Fresh custom.reverse "{a}{{b}d}".toList ∧
      applyCustom custom "{a}{{b}d}".toList = "{c}{d}".toList ∧
      applyCustom custom.reverse "{a}{{b}d}".toList = "{c}{d}".toList := by
  intro custom
  have hcustom : Keyed custom := ⟨by decide +kernel, by decide +kernel⟩
  obtain ⟨hfresh, hfresh'⟩ : Fresh custom "{a}{{b}d}".toList ∧
      Fresh custom.reverse "{a}{{b}d}".toList := by decide +kernel
  obtain ⟨hput, -⟩ := @custom_values_at_once Unit Unit custom hcustom "{a}{{b}d}".toList
  have htext : putIn custom "{a}{{b}d}".toList = "{c}{d}".toList := by decide +kernel
  refine ⟨hcustom, hfresh, hfresh', ?_, ?_⟩
  · exact (((hput custom (.refl custom)).1 hfresh).1).trans htext
  · exact (((hput custom.reverse (List.reverse_perm custom)).1 hfresh').1).trans htext

/-- A value that is another entry's key in braces is rewritten or not, as the order of the entries
has it. -/
theorem custom_value_rewritten :
    let r : Registry Unit Unit := []
    (r.reply [(['a'], "{b}".toList), (['b'], ['x'])] () "{a}".toList ()).answer.toOption =
      some ['x'] ∧
    (r.reply [(['b'], ['x']), (['a'], "{b}".toList)] () "{a}".toList ()).answer.toOption =
      some "{b}".toList ∧
    putIn [(['a'], "{b}".toList), (['b'], ['x'])] "{a}".toList = "{b}".toList := by
  decide +kernel

end Conditions.Placeholder
