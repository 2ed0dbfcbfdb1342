import Conditions.Dictionary
import Mathlib.Data.List.Induction

/-!
# Looking up what was inserted

What a dictionary answers for a key after entries have been inserted, left out or changed: of
several values inserted for one key the last one counts. The place of a key, however, is that of the
first one.
-/

set_option autoImplicit false

namespace Conditions.Dictionary

section
variable {α β γ : Type} [BEq α]

@[simp] theorem find?_nil (key : α) : find? ([] : Dictionary α β) key = none := rfl

theorem find?_cons (k : α) (v : β) (d : Dictionary α β) (key : α) :
    find? ((k, v) :: d) key = if key == k then some v else find? d key := by
  unfold find?
  rw [List.lookup_cons]
  cases key == k <;> rfl

theorem find?_append (d more : Dictionary α β) (key : α) :
    find? (d ++ more) key = (find? d key).or (find? more key) :=
  List.lookup_append

theorem find?_map (f : β → γ) (d : Dictionary α β) (key : α) :
    find? (d.map fun e => (e.1, f e.2)) key = (find? d key).map f := by
  induction d with
  | nil => rfl
  | cons entry d ih =>
    rw [List.map_cons, find?_cons, find?_cons, ih]
    split <;> rfl

variable [LawfulBEq α]

theorem find?_eq_none_iff {d : Dictionary α β} {key : α} : find? d key = none ↔ key ∉ keys d := by
  unfold find? keys
  rw [List.lookup_eq_none_iff]
  constructor
  · intro h hmem
    obtain ⟨entry, hentry, rfl⟩ := List.mem_map.mp hmem
    simpa using h entry hentry
  · intro h entry hentry
    exact bne_iff_ne.mpr fun hkey => h (hkey ▸ List.mem_map_of_mem hentry)

theorem mem_of_find? {d : Dictionary α β} {key : α} {v : β} (h : find? d key = some v) :
    (key, v) ∈ d := by
  induction d with
  | nil => cases h
  | cons entry d ih =>
    rw [find?_cons] at h
    split at h
    · rename_i hkey
      cases h
      rw [eq_of_beq hkey]
      exact List.mem_cons_self
    · exact List.mem_cons_of_mem entry (ih h)

theorem find?_insert (d : Dictionary α β) (k : α) (v : β) (key : α) :
    find? (insert d k v) key = if key == k then some v else find? d key := by
  induction d with
  | nil => rw [insert, find?_cons]
  | cons entry d ih =>
    obtain ⟨k', v'⟩ := entry
    rw [insert]
    split
    · rename_i hk
      rw [find?_cons, find?_cons, eq_of_beq hk]
      split <;> rfl
    · rename_i hk
      rw [find?_cons, find?_cons, ih]
      by_cases hkey : key = k'
      · subst hkey
        simp [hk]
      · simp [hkey]

theorem find?_insertAll (d more : Dictionary α β) (key : α) :
    find? (insertAll d more) key = (find? more.reverse key).or (find? d key) := by
  induction more generalizing d with
  | nil => rfl
  | cons entry more ih =>
    obtain ⟨k, v⟩ := entry
    change find? (insertAll (insert d k v) more) key = _
    rw [ih, find?_insert, List.reverse_cons, find?_append, find?_cons, Option.or_assoc]
    split <;> rfl

theorem find?_filter (p : α → Bool) (d : Dictionary α β) (key : α) :
    find? (d.filter fun e => p e.1) key = if p key then find? d key else none := by
  induction d with
  | nil => simp
  | cons entry d ih =>
    obtain ⟨k, v⟩ := entry
    rw [List.filter_cons]
    by_cases hkey : key = k
    · subst hkey
      cases hp : p key <;> simp [find?_cons, ih, hp]
    · cases hk : p k <;> simp [find?_cons, ih, hkey]

theorem insert_here (k : α) (v v' : β) (d : Dictionary α β) :
    insert ((k, v') :: d) k v = (k, v) :: d := by
  rw [insert, if_pos (beq_self_eq_true k)]

theorem insert_there {k k' : α} (hne : k' ≠ k) (v v' : β) (d : Dictionary α β) :
    insert ((k', v') :: d) k v = (k', v') :: insert d k v := by
  rw [insert, if_neg (by simpa using hne)]

theorem keys_insert (d : Dictionary α β) (k : α) (v : β) :
    keys (insert d k v) = if k ∈ keys d then keys d else keys d ++ [k] := by
  induction d with
  | nil => rfl
  | cons entry d ih =>
    by_cases hk : entry.1 = k
    · subst hk
      rw [insert_here, if_pos (show entry.1 ∈ keys (entry :: d) from List.mem_cons_self)]
      rfl
    · rw [insert_there hk]
      change entry.1 :: keys (insert d k v) = if k ∈ entry.1 :: keys d then entry.1 :: keys d else _
      rw [ih]
      by_cases hmem : k ∈ keys d
      · rw [if_pos hmem, if_pos (List.mem_cons_of_mem _ hmem)]
      · rw [if_neg hmem, if_neg (List.not_mem_cons_of_ne_of_not_mem (Ne.symm hk) hmem)]
        rfl

theorem insert_of_not_mem {d : Dictionary α β} {k : α} (h : k ∉ keys d) (v : β) :
    insert d k v = d ++ [(k, v)] := by
  induction d with
  | nil => rfl
  | cons entry d ih =>
    have hk : entry.1 ≠ k := fun heq => h (heq ▸ List.mem_cons_self)
    rw [insert_there hk, ih fun hmem => h (List.mem_cons_of_mem _ hmem)]
    rfl

omit [LawfulBEq α] in
theorem ofList_append (entries more : List (α × β)) :
    ofList (entries ++ more) = insertAll (ofList entries) more :=
  List.foldl_append

omit [LawfulBEq α] in
theorem ofList_concat (entries : List (α × β)) (k : α) (v : β) :
    ofList (entries ++ [(k, v)]) = insert (ofList entries) k v :=
  List.foldl_append

theorem nodup_keys_insert {d : Dictionary α β} (h : (keys d).Nodup) (k : α) (v : β) :
    (keys (insert d k v)).Nodup := by
  rw [keys_insert]
  split
  · exact h
  · rename_i hk
    rw [List.nodup_append]
    exact ⟨h, by simp, fun a ha b hb hab => hk (by simp_all)⟩

theorem nodup_keys_ofList (entries : List (α × β)) : (keys (ofList entries)).Nodup := by
  induction entries using List.reverseRecOn with
  | nil => exact List.nodup_nil
  | append_singleton entries entry ih =>
    rw [ofList_concat]
    exact nodup_keys_insert ih entry.1 entry.2

theorem eraseDups_concat (l : List α) (a : α) :
    (l ++ [a]).eraseDups = if a ∈ l then l.eraseDups else l.eraseDups ++ [a] := by
  rw [List.eraseDups_append]
  by_cases ha : a ∈ l <;> simp [List.removeAll, ha, List.eraseDups_cons]

theorem keys_ofList (entries : List (α × β)) :
    keys (ofList entries) = (keys entries).eraseDups := by
  induction entries using List.reverseRecOn with
  | nil => rfl
  | append_singleton entries entry ih =>
    have hkeys : keys (entries ++ [entry]) = keys entries ++ [entry.1] := List.map_append
    rw [ofList_concat, keys_insert, hkeys, eraseDups_concat, ih]
    simp only [List.mem_eraseDups]

theorem find?_of_mem {d : Dictionary α β} (h : (keys d).Nodup) {k : α} {v : β} (hmem : (k, v) ∈ d) :
    find? d k = some v := by
  induction d with
  | nil => cases hmem
  | cons entry d ih =>
    obtain ⟨hnew, hrest⟩ := List.nodup_cons.mp h
    rw [find?_cons]
    rcases List.mem_cons.mp hmem with rfl | hmem
    · rw [if_pos (beq_self_eq_true k)]
    · have hkey : k ∈ keys d := List.mem_map_of_mem hmem
      have hk : k ≠ entry.1 := by
        rintro rfl
        exact hnew hkey
      rw [if_neg (by simpa using hk), ih hrest hmem]

theorem ofList_of_nodup {d : Dictionary α β} (h : (keys d).Nodup) : ofList d = d := by
  induction d using List.reverseRecOn with
  | nil => rfl
  | append_singleton d entry ih =>
    have hkeys : keys (d ++ [entry]) = keys d ++ [entry.1] := List.map_append
    rw [hkeys, List.nodup_append] at h
    have hnew : entry.1 ∉ keys d := fun hmem => h.2.2 _ hmem _ (List.mem_singleton_self _) rfl
    rw [ofList_concat, ih h.1, insert_of_not_mem hnew]

theorem insert_insert (d : Dictionary α β) (k : α) (v v' : β) :
    insert (insert d k v) k v' = insert d k v' := by
  induction d with
  | nil => rw [insert, insert, insert_here]
  | cons entry d ih =>
    by_cases hk : entry.1 = k
    · subst hk
      rw [insert_here, insert_here, insert_here]
    · rw [insert_there hk, insert_there hk, insert_there hk, ih]

/-- A present key keeps its place, so its value may as well be replaced later. -/
theorem insert_comm {d : Dictionary α β} {k k' : α} (hk : k ∈ keys d) (hne : k ≠ k') (v v' : β) :
    insert (insert d k v) k' v' = insert (insert d k' v') k v := by
  induction d with
  | nil => cases hk
  | cons entry d ih =>
    by_cases hkey : entry.1 = k
    · subst hkey
      rw [insert_here, insert_there hne, insert_there hne, insert_here]
    · have hmem : k ∈ keys d := (List.mem_cons.mp hk).resolve_left fun heq => hkey heq.symm
      rw [insert_there hkey]
      by_cases hkey' : entry.1 = k'
      · subst hkey'
        rw [insert_here, insert_here, insert_there hkey]
      · rw [insert_there hkey', insert_there hkey', insert_there hkey, ih hmem]

theorem mem_keys_insert (d : Dictionary α β) (k k' : α) (v : β) :
    k' ∈ keys (insert d k v) ↔ k' ∈ keys d ∨ k' = k := by
  rw [keys_insert]
  split
  · rename_i hk
    exact ⟨.inl, fun h => h.elim id fun heq => heq ▸ hk⟩
  · rw [List.mem_append, List.mem_singleton]

theorem insertAll_insert_comm {d more : Dictionary α β} {k : α} (hk : k ∈ keys d)
    (hnot : k ∉ keys more) (v : β) :
    insertAll (insert d k v) more = insert (insertAll d more) k v := by
  induction more generalizing d with
  | nil => rfl
  | cons entry more ih =>
    have hne : k ≠ entry.1 := fun heq => hnot (heq ▸ List.mem_cons_self)
    have hpresent := (mem_keys_insert d entry.1 k entry.2).mpr (.inl hk)
    change insertAll (insert (insert d k v) entry.1 entry.2) more = _
    rw [insert_comm hk hne, ih hpresent fun hmem => hnot (List.mem_cons_of_mem _ hmem)]
    rfl

theorem insertAll_insert (d : Dictionary α β) {more : Dictionary α β} (h : (keys more).Nodup)
    (k : α) (v : β) : insertAll d (insert more k v) = insert (insertAll d more) k v := by
  induction more generalizing d with
  | nil => rfl
  | cons entry more ih =>
    obtain ⟨hnew, hrest⟩ := List.nodup_cons.mp h
    by_cases hk : entry.1 = k
    · subst hk
      have hpresent := (mem_keys_insert d entry.1 entry.1 entry.2).mpr (.inr rfl)
      rw [insert_here]
      change insertAll (insert d entry.1 v) more =
        insert (insertAll (insert d entry.1 entry.2) more) entry.1 v
      rw [← insertAll_insert_comm hpresent hnew, insert_insert]
    · rw [insert_there hk]
      exact ih (insert d entry.1 entry.2) hrest

/-- To insert entries that are merged is to insert them one after the other. -/
theorem insertAll_ofList (d : Dictionary α β) (entries : List (α × β)) :
    insertAll d (ofList entries) = insertAll d entries := by
  induction entries using List.reverseRecOn with
  | nil => rfl
  | append_singleton entries entry ih =>
    have hconcat : insertAll d (entries ++ [entry]) =
        insert (insertAll d entries) entry.1 entry.2 := List.foldl_append
    rw [ofList_concat, insertAll_insert d (nodup_keys_ofList entries), ih, hconcat]

theorem filter_insert (p : α → Bool) (d : Dictionary α β) (k : α) (v : β) :
    ((insert d k v).filter fun e => p e.1) =
      if p k then insert (d.filter fun e => p e.1) k v else d.filter fun e => p e.1 := by
  induction d with
  | nil => cases hp : p k <;> simp [insert, hp]
  | cons entry d ih =>
    obtain ⟨k', v'⟩ := entry
    by_cases hk : k' = k
    · subst hk
      rw [insert_here, List.filter_cons, List.filter_cons]
      cases hp : p k' with
      | false => rfl
      | true => exact (insert_here k' v v' _).symm
    · rw [insert_there hk, List.filter_cons, List.filter_cons, ih]
      cases hp : p k' <;> cases hpk : p k <;> simp [insert_there hk]

theorem filter_ofList (p : α → Bool) (entries : List (α × β)) :
    ((ofList entries).filter fun e => p e.1) = ofList (entries.filter fun e => p e.1) := by
  induction entries using List.reverseRecOn with
  | nil => rfl
  | append_singleton entries entry ih =>
    rw [ofList_concat, filter_insert, ih, List.filter_append]
    cases hp : p entry.1 with
    | false => simp [hp]
    | true =>
      rw [if_pos rfl, List.filter_cons_of_pos (by simp [hp]), List.filter_nil, ofList_concat]

omit [LawfulBEq α] in
theorem mem_insert {d : Dictionary α β} {k : α} {v : β} {e : α × β} (h : e ∈ insert d k v) :
    e.2 = v ∨ e ∈ d := by
  induction d with
  | nil =>
    rw [insert, List.mem_singleton] at h
    exact .inl (h ▸ rfl)
  | cons entry d ih =>
    rw [insert] at h
    split at h
    · rcases List.mem_cons.mp h with rfl | hrest
      · exact .inl rfl
      · exact .inr (List.mem_cons_of_mem entry hrest)
    · rcases List.mem_cons.mp h with rfl | hrest
      · exact .inr List.mem_cons_self
      · exact (ih hrest).imp_right (List.mem_cons_of_mem entry)

omit [LawfulBEq α] in
theorem exists_of_mem_ofList {entries : List (α × β)} {e : α × β} (h : e ∈ ofList entries) :
    ∃ f ∈ entries, f.2 = e.2 := by
  induction entries using List.reverseRecOn with
  | nil => cases h
  | append_singleton entries entry ih =>
    rw [ofList_concat] at h
    rcases mem_insert h with hv | hrest
    · exact ⟨entry, List.mem_append_right _ (List.mem_singleton_self entry), hv.symm⟩
    · obtain ⟨f, hf, hv⟩ := ih hrest
      exact ⟨f, List.mem_append_left _ hf, hv⟩

end

end Conditions.Dictionary
