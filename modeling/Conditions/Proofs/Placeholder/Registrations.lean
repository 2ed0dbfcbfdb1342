import Conditions.Placeholder.Expand
import Conditions.Proofs.Placeholder.Lookup
import Mathlib.Data.Char
import Mathlib.Data.List.Lex

/-!
# Handlers that come and go

Handlers are registered and unregistered under keys in any spelling. Which one answers for a
reference, and which keys there are, is told by the last change for each lower-case key.
-/

set_option autoImplicit false

namespace Conditions

namespace Text

/-- The order of texts is the one of their code points, character by character. -/
theorem precedes_iff_lt {a b : Text} : precedes a b = true ↔ a < b := by
  induction a generalizing b with
  | nil =>
    cases b with
    | nil => simp [precedes]
    | cons y b => simp [precedes]
  | cons x a ih =>
    cases b with
    | nil => simp [precedes]
    | cons y b =>
      have hchar : x.toNat < y.toNat ↔ x < y := Iff.rfl
      simp [precedes, List.cons_lt_cons_iff, ih, hchar]

theorem pieces_ne_nil (mark : Char) (t : Text) : pieces mark t ≠ [] := by
  cases t with
  | nil => simp [pieces]
  | cons c rest =>
    rw [pieces]
    split
    · simp
    · split <;> simp

/-- The pieces of a text with the mark between them are the text. -/
theorem intercalate_pieces (mark : Char) (t : Text) :
    List.intercalate [mark] (pieces mark t) = t := by
  induction t with
  | nil => rfl
  | cons c rest ih =>
    obtain ⟨piece, more, hpieces⟩ := List.exists_cons_of_ne_nil (pieces_ne_nil mark rest)
    rw [hpieces] at ih
    rw [pieces]
    split
    · rename_i hc
      rw [hpieces, List.intercalate_cons_cons, ih, hc]
      rfl
    · rw [hpieces]
      dsimp only
      rw [← ih]
      cases more with
      | nil => simp
      | cons next more => simp [List.intercalate_cons_cons]

end Text

namespace Placeholder

theorem intercalate_splitArgs (raw : Text) : List.intercalate ['_'] (splitArgs raw) = raw := by
  unfold splitArgs
  split
  · rename_i hraw
    rw [List.isEmpty_iff.mp hraw]
    rfl
  · exact Text.intercalate_pieces '_' raw

variable {κ σ : Type}

inductive Change (κ σ : Type) where
  | register (key : Text) (handler : Handler κ σ)
  | unregister (key : Text)

def Change.key : Change κ σ → Text
  | .register key _ => key
  | .unregister key => key

def Stands (history : List (Change κ σ)) (lowered : Text) (h : Handler κ σ) : Prop :=
  ∃ before key after, history = before ++ .register key h :: after ∧ Text.lower key = lowered ∧
    ∀ c ∈ after, Text.lower c.key ≠ lowered

def Vacant (history : List (Change κ σ)) (lowered : Text) : Prop := ∀ h, ¬ Stands history lowered h

theorem not_stands_nil (lowered : Text) (h : Handler κ σ) : ¬ Stands [] lowered h := by
  rintro ⟨before, key, after, hsplit, -⟩
  simp at hsplit

/-- The last change decides for its own key, and leaves the others as they are. -/
theorem stands_concat_iff {history : List (Change κ σ)} {c : Change κ σ} {lowered : Text}
    {h : Handler κ σ} : Stands (history ++ [c]) lowered h ↔
      if Text.lower c.key = lowered then ∃ key, c = .register key h
      else Stands history lowered h := by
  constructor
  · rintro ⟨before, key, after, hsplit, hkey, hafter⟩
    rcases List.eq_nil_or_concat after with rfl | ⟨after', last, rfl⟩
    · obtain ⟨-, hlast⟩ := List.append_inj' hsplit rfl
      have hc : c = .register key h := by simpa using hlast
      rw [if_pos (by rw [hc]; exact hkey)]
      exact ⟨key, hc⟩
    · rw [List.concat_eq_append, ← List.cons_append, ← List.append_assoc] at hsplit
      obtain ⟨hfront, hlast⟩ := List.append_inj' hsplit rfl
      obtain rfl : c = last := by simpa using hlast
      rw [if_neg (hafter c (by simp))]
      exact ⟨before, key, after', hfront, hkey, fun c' hc' => hafter c' (by simp [hc'])⟩
  · split
    · rename_i hkey
      rintro ⟨key, rfl⟩
      exact ⟨history, key, [], rfl, hkey, by simp⟩
    · rename_i hkey
      rintro ⟨before, key, after, rfl, hregistered, hafter⟩
      refine ⟨before, key, after ++ [c], by simp, hregistered, ?_⟩
      intro c' hc'
      rcases List.mem_append.mp hc' with hc' | hc'
      · exact hafter c' hc'
      · rwa [List.mem_singleton.mp hc']

namespace Registry

def alter (r : Registry κ σ) : Change κ σ → Registry κ σ
  | .register key h => r.register key h
  | .unregister key => r.unregister key

def after (r : Registry κ σ) (changes : List (Change κ σ)) : Registry κ σ := changes.foldl alter r

theorem after_concat (r : Registry κ σ) (changes : List (Change κ σ)) (c : Change κ σ) :
    r.after (changes ++ [c]) = (r.after changes).alter c := List.foldl_append

/-- The first handlers of a registry are registered like all others. -/
theorem after_ofList (entries : List (Text × Handler κ σ)) (changes : List (Change κ σ)) :
    (ofList entries).after changes =
      after [] (entries.map (fun e => .register e.1 e.2) ++ changes) := by
  unfold after ofList
  rw [List.foldl_append, List.foldl_map]
  rfl

theorem find?_alter (r : Registry κ σ) (c : Change κ σ) (lowered : Text) :
    Dictionary.find? (r.alter c) lowered =
      if Text.lower c.key = lowered then
        match c with
        | .register _ h => some h
        | .unregister _ => none
      else Dictionary.find? r lowered := by
  cases c with
  | register key h =>
    simp only [alter, register, Dictionary.find?_insert, Change.key, beq_iff_eq,
      eq_comm (a := Text.lower key)]
  | unregister key =>
    have herase := Dictionary.find?_filter (fun k => !(k == Text.lower key)) r lowered
    simp only [alter, unregister, Dictionary.erase, herase, Change.key]
    by_cases hkey : lowered = Text.lower key
    · simp [hkey]
    · simp [hkey, Ne.symm hkey]

theorem find?_after_iff {history : List (Change κ σ)} {lowered : Text} {h : Handler κ σ} :
    Dictionary.find? (after [] history) lowered = some h ↔ Stands history lowered h := by
  induction history using List.reverseRecOn with
  | nil => simp [after, not_stands_nil]
  | append_singleton history c ih =>
    rw [after_concat, find?_alter, stands_concat_iff]
    split
    · cases c <;> simp [eq_comm]
    · exact ih

theorem find?_after_eq_none_iff {history : List (Change κ σ)} {lowered : Text} :
    Dictionary.find? (after [] history) lowered = none ↔ Vacant history lowered := by
  rw [Option.eq_none_iff_forall_ne_some]
  exact forall_congr' fun h => not_congr find?_after_iff

theorem nodup_keys_after (history : List (Change κ σ)) :
    (Dictionary.keys (after [] history)).Nodup := by
  induction history using List.reverseRecOn with
  | nil => exact List.nodup_nil
  | append_singleton history c ih =>
    rw [after_concat]
    cases c with
    | register key h => exact Dictionary.nodup_keys_insert ih _ _
    | unregister key => exact ih.sublist (List.filter_sublist.map _)

theorem mem_insertSorted {key k : Text} {l : List Text} :
    k ∈ insertSorted key l ↔ k = key ∨ k ∈ l := by
  induction l with
  | nil => simp [insertSorted]
  | cons first rest ih =>
    rw [insertSorted]
    split
    · simp
    · simp only [List.mem_cons, ih]
      tauto

theorem insertSorted_sorted {key : Text} {l : List Text} (h : l.Pairwise (· < ·))
    (hnew : key ∉ l) : (insertSorted key l).Pairwise (· < ·) := by
  induction l with
  | nil => simp [insertSorted]
  | cons first rest ih =>
    obtain ⟨hfirst, hrest⟩ := List.pairwise_cons.mp h
    rw [insertSorted]
    split
    · rename_i hprecedes
      have hlt : key < first := Text.precedes_iff_lt.mp hprecedes
      refine List.pairwise_cons.mpr ⟨fun k hk => ?_, h⟩
      rcases List.mem_cons.mp hk with rfl | hk
      · exact hlt
      · exact hlt.trans (hfirst k hk)
    · rename_i hprecedes
      have hle : first ≤ key := not_lt.mp (mt Text.precedes_iff_lt.mpr hprecedes)
      have hlt : first < key := lt_of_le_of_ne hle fun heq => hnew (heq ▸ List.mem_cons_self)
      refine List.pairwise_cons.mpr ⟨fun k hk => ?_, ih hrest (List.not_mem_of_not_mem_cons hnew)⟩
      rcases mem_insertSorted.mp hk with rfl | hk
      · exact hlt
      · exact hfirst k hk

theorem foldr_insertSorted {l : List Text} (h : l.Nodup) :
    (l.foldr insertSorted []).Pairwise (· < ·) ∧ ∀ k, k ∈ l.foldr insertSorted [] ↔ k ∈ l := by
  induction l with
  | nil => simp
  | cons key l ih =>
    obtain ⟨hnew, hrest⟩ := List.nodup_cons.mp h
    obtain ⟨hsorted, hmem⟩ := ih hrest
    refine ⟨insertSorted_sorted hsorted (mt (hmem key).mp hnew), fun k => ?_⟩
    rw [List.foldr_cons, mem_insertSorted, hmem, List.mem_cons]

theorem keys_after (history : List (Change κ σ)) :
    (after [] history).keys.Pairwise (· < ·) ∧
      ∀ lowered, lowered ∈ (after [] history).keys ↔ ∃ h, Stands history lowered h := by
  obtain ⟨hsorted, hmem⟩ := foldr_insertSorted (nodup_keys_after history)
  refine ⟨hsorted, fun lowered => (hmem lowered).trans ?_⟩
  rw [← not_iff_not, ← Dictionary.find?_eq_none_iff, find?_after_eq_none_iff, not_exists]
  rfl

section
variable {history : List (Change κ σ)} {name : Text}

theorem find?_whole {h : Handler κ σ} (hname : Stands history (Text.lower name) h) :
    (after [] history).find? name = some (h, []) := by
  rw [find?, find?_after_iff.mpr hname]

theorem find?_split {key raw : Text} {h : Handler κ σ}
    (hname : Vacant history (Text.lower name)) (hcut : name = key ++ '_' :: raw)
    (hkey : '_' ∉ key) (hfront : Stands history (Text.lower key) h) :
    (after [] history).find? name = some (h, raw) := by
  rw [find?, find?_after_eq_none_iff.mpr hname, Text.splitAt?_eq_some_iff.mpr ⟨hcut, hkey⟩]
  simp [find?_after_iff.mpr hfront]

theorem find?_nobody (hname : Vacant history (Text.lower name))
    (hfront : ∀ key raw, name = key ++ '_' :: raw → '_' ∉ key →
      Vacant history (Text.lower key)) : (after [] history).find? name = none := by
  rw [find?, find?_after_eq_none_iff.mpr hname]
  cases hcut : Text.splitAt? '_' name with
  | none => rfl
  | some parts =>
    obtain ⟨key, raw⟩ := parts
    obtain ⟨hparts, hkey⟩ := Text.splitAt?_eq_some_iff.mp hcut
    simp [find?_after_eq_none_iff.mpr (hfront key raw hparts hkey)]

end

end Registry

/-- After any handlers at the beginning and any changes: a reference calls the handler that stands
for its name in lower case, without arguments; else, if its name has an underscore, the one that
stands for the part in front of the first, with all that comes behind it as it is written; else the
reference stays as it is. The keys are those for which a handler stands, in order and once each. -/
theorem lookup_follows_history (entries : List (Text × Handler κ σ))
    (changes : List (Change κ σ)) :
    let r := (Registry.ofList entries).after changes
    let history := entries.map (fun e => Change.register e.1 e.2) ++ changes
    (∀ (style : Style) (caller : κ) (name : Text),
      (∀ h, Stands history (Text.lower name) h →
        replacePiece r style caller (.reference name) = h caller []) ∧
      (Vacant history (Text.lower name) →
        (∀ key raw h, name = key ++ '_' :: raw → '_' ∉ key →
          Stands history (Text.lower key) h →
            replacePiece r style caller (.reference name) = h caller raw) ∧
        ((∀ key raw, name = key ++ '_' :: raw → '_' ∉ key →
          Vacant history (Text.lower key)) →
            replacePiece r style caller (.reference name) =
              pure (style.opening :: name ++ [style.closing])))) ∧
    (∀ raw, List.intercalate ['_'] (splitArgs raw) = raw) ∧
    r.keys.Pairwise (· < ·) ∧ ∀ lowered, lowered ∈ r.keys ↔ ∃ h, Stands history lowered h := by
  intro r history
  have hr : r = Registry.after [] history := Registry.after_ofList entries changes
  rw [hr]
  refine ⟨fun style caller name => ⟨fun h hname => ?_, fun hname => ⟨?_, fun hfront => ?_⟩⟩,
    intercalate_splitArgs, Registry.keys_after history⟩
  · rw [replacePiece, Registry.find?_whole hname]
  · intro key raw h hcut hkey hfront
    rw [replacePiece, Registry.find?_split hname hcut hkey hfront]
  · rw [replacePiece, Registry.find?_nobody hname hfront]
    rfl

def respellings : List (Change Unit Unit) :=
  [.register "Max".toList (.fixed "7".toList), .register "max_hp".toList (.fixed "20".toList),
    .unregister "MAX_HP".toList, .register "mAX".toList fun _ raw => pure raw]

/-- The last spelling counts, and what is unregistered hides the key in front of its underscore no
longer. -/
theorem lookup_follows_respellings :
    let r := (Registry.ofList []).after respellings
    replacePiece r percent () (.reference "max".toList) = pure [] ∧
      replacePiece r percent () (.reference "MAX_HP_left".toList) = pure "HP_left".toList ∧
        replacePiece r percent () (.reference "min_hp".toList) = pure "%min_hp%".toList := by
  intro r
  obtain ⟨hlookup, -⟩ := lookup_follows_history [] respellings
  have hmax : Stands respellings "max".toList fun _ raw => pure raw :=
    ⟨respellings.take 3, "mAX".toList, [], rfl, by decide, by simp⟩
  have hvacant : ∀ {key : Text}, Dictionary.find? (Registry.after [] respellings) key = none →
      Vacant respellings key := Registry.find?_after_eq_none_iff.mp
  refine ⟨(hlookup percent () "max".toList).1 _ hmax, ?_, ?_⟩
  · exact ((hlookup percent () "MAX_HP_left".toList).2 (hvacant rfl)).1 "MAX".toList
      "HP_left".toList _ rfl (by decide) hmax
  · refine ((hlookup percent () "min_hp".toList).2 (hvacant rfl)).2 fun key raw hcut hkey => ?_
    have hsplit := Text.splitAt?_eq_some_iff.mpr ⟨hcut, hkey⟩
    obtain ⟨rfl, -⟩ : "min".toList = key ∧ "hp".toList = raw :=
      Prod.mk.inj (Option.some.inj hsplit)
    exact hvacant rfl

end Placeholder

end Conditions
