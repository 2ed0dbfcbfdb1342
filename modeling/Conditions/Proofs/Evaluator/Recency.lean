import Conditions.Proofs.Evaluator.Evaluation
import Mathlib.Data.Finset.Card
import Mathlib.Data.List.Induction

/-!
# What a cache still holds

A cache holds the texts that were compiled last. A text is therefore given the same condition again
exactly if fewer others than the cache has room for were compiled since; otherwise it is parsed
anew. What cannot be compiled leaves no trace.
-/

set_option autoImplicit false

namespace Conditions.Evaluator
open Expression

def sound? (line : Line) : Option Text := line.filter fun source => (parse source).isOk

def successes (lines : List Line) : List Text := lines.filterMap sound?

theorem sound?_eq_some_iff {line : Line} {source : Text} :
    sound? line = some source ↔ line = some source ∧ (parse source).isOk = true :=
  Option.filter_eq_some_iff

def recent (lines : List Line) : List Text :=
  lines.foldl (fun texts line =>
    match sound? line with
    | none => texts
    | some source => source :: texts.filter fun other => other != source) []

section
variable {lines : List Line} {line : Line} {source : Text}

theorem recent_concat_none (h : sound? line = none) : recent (lines ++ [line]) = recent lines := by
  simp [recent, h]

theorem recent_concat_some (h : sound? line = some source) :
    recent (lines ++ [line]) = source :: (recent lines).filter fun other => other != source := by
  simp [recent, h]

theorem mem_recent_iff : source ∈ recent lines ↔ source ∈ successes lines := by
  induction lines using List.reverseRecOn with
  | nil => simp [recent, successes]
  | append_singleton lines line ih =>
    have hsplit : successes (lines ++ [line]) = successes lines ++ (sound? line).toList := by
      cases h : sound? line <;> simp [successes, h]
    rw [hsplit]
    cases h : sound? line with
    | none => simp [recent_concat_none h, ih]
    | some last =>
      by_cases hlast : source = last
      · simp [recent_concat_some h, hlast]
      · simp [recent_concat_some h, hlast, ih]

theorem nodup_recent (lines : List Line) : (recent lines).Nodup := by
  induction lines using List.reverseRecOn with
  | nil => exact List.nodup_nil
  | append_singleton lines line ih =>
    cases h : sound? line with
    | none => rwa [recent_concat_none h]
    | some last =>
      rw [recent_concat_some h]
      exact List.nodup_cons.mpr ⟨by simp, ih.filter _⟩

/-- In front of a text stand those that were compiled after it. -/
theorem recent_split (past : List Line) {since : List Line}
    (hsource : sound? (some source) = some source) (hsince : some source ∉ since) : ∃ front back,
      recent (past ++ some source :: since) = front ++ source :: back ∧ front.Nodup ∧
        ∀ other, other ∈ front ↔ other ∈ successes since := by
  induction since using List.reverseRecOn with
  | nil => exact ⟨[], _, recent_concat_some hsource, List.nodup_nil, fun _ => by simp [successes]⟩
  | append_singleton since line ih =>
    obtain ⟨front, back, hrecent, hnodup, hfront⟩ :=
      ih fun hmem => hsince (List.mem_append_left _ hmem)
    have hassoc : past ++ some source :: (since ++ [line]) =
        past ++ some source :: since ++ [line] := by simp
    rw [hassoc]
    cases h : sound? line with
    | none =>
      refine ⟨front, back, (recent_concat_none h).trans hrecent, hnodup, fun other => ?_⟩
      rw [hfront, successes, successes, List.filterMap_append]
      simp [h]
    | some last =>
      have hne : source ≠ last := by
        rintro rfl
        exact hsince (by simp [(sound?_eq_some_iff.mp h).1])
      refine ⟨last :: front.filter fun other => other != last,
        back.filter fun other => other != last, ?_, ?_, fun other => ?_⟩
      · rw [recent_concat_some h, hrecent]
        simp [hne]
      · exact List.nodup_cons.mpr ⟨by simp, hnodup.filter _⟩
      · by_cases hlast : other = last
        · simp [successes, hlast, h]
        · simp [successes, hlast, h, hfront]

/-- A text is among the first `n` if fewer than `n` others came after it. -/
theorem mem_take_recent_iff {past since : List Line} (hsource : sound? (some source) = some source)
    (hsince : some source ∉ since) (n : Nat) :
    source ∈ (recent (past ++ some source :: since)).take n ↔
      (successes since).toFinset.card < n := by
  obtain ⟨front, back, hrecent, hnodup, hfront⟩ := recent_split past hsource hsince
  have hcard : (successes since).toFinset.card = front.length := by
    rw [← List.toFinset_card_of_nodup hnodup]
    congr 1
    ext other
    simp [hfront]
  have hnot : source ∉ front := by
    rw [hfront]
    intro hmem
    obtain ⟨line, hline, hsound⟩ := List.mem_filterMap.mp hmem
    exact hsince ((sound?_eq_some_iff.mp hsound).1 ▸ hline)
  rw [hcard, hrecent]
  constructor
  · intro hmem
    by_contra hle
    rw [List.take_append_of_le_length (Nat.le_of_not_lt hle)] at hmem
    exact hnot (List.mem_of_mem_take hmem)
  · intro hlt
    rw [List.take_append, List.take_of_length_le (Nat.le_of_lt hlt)]
    obtain ⟨k, hk⟩ := Nat.exists_eq_add_of_lt hlt
    have hroom : n - front.length = k + 1 := by omega
    simp [hroom]

end

section
variable {α : Type} [BEq α] [LawfulBEq α] {a : α} {l : List α}

theorem filter_ne_of_not_mem (h : a ∉ l) : (l.filter fun b => b != a) = l :=
  List.filter_eq_self.mpr fun _ hb => bne_iff_ne.mpr fun hba => h (hba ▸ hb)

/-- To move an element of the first `n` to the front leaves the others of them. -/
theorem take_front_of_mem (hl : l.Nodup) {n : Nat} (h : a ∈ l.take n) :
    (a :: l.filter fun b => b != a).take n = a :: (l.take n).filter fun b => b != a := by
  induction l generalizing n with
  | nil => simp at h
  | cons b l ih =>
    obtain ⟨hb, hl⟩ := List.nodup_cons.mp hl
    cases n with
    | zero => simp at h
    | succ n =>
      by_cases hba : b = a
      · subst hba
        have hnot : b ∉ l.take n := fun hmem => hb (List.mem_of_mem_take hmem)
        simp [filter_ne_of_not_mem hb, filter_ne_of_not_mem hnot]
      · have hmem : a ∈ l.take n := by simpa [Ne.symm hba] using h
        have hnext := ih hl hmem
        cases n with
        | zero => simp at hmem
        | succ n =>
          have hkeep : (b != a) = true := bne_iff_ne.mpr hba
          simp only [List.take_succ_cons, List.filter_cons, hkeep, if_true] at hnext ⊢
          rw [List.cons_inj_right] at hnext ⊢
          rw [hnext]

/-- To put a new element in front drops what there is no room for. -/
theorem take_front_of_not_mem {n : Nat} (h : a ∉ l.take n) :
    (a :: l.filter fun b => b != a).take n = (a :: l.take n).take n := by
  cases n with
  | zero => rfl
  | succ n =>
    rw [List.take_succ_cons, List.take_succ_cons, List.take_take, Nat.min_eq_left (Nat.le_succ n)]
    congr 1
    induction l generalizing n with
    | nil => rfl
    | cons b l ih =>
      have hba : b ≠ a := by
        rintro rfl
        exact h (by simp)
      have hkeep : (b != a) = true := bne_iff_ne.mpr hba
      rw [List.filter_cons, if_pos hkeep]
      cases n with
      | zero => rfl
      | succ n =>
        rw [List.take_succ_cons, List.take_succ_cons, ih]
        intro hmem
        exact h (by simp [hmem])

end

namespace Cache

def fetch (c : Cache) (line : Line) : Except Fault Compiled × Cache :=
  match present line with
  | .error fault => (.error fault, c)
  | .ok source => c.compile source

def fetchAll (c : Cache) (lines : List Line) : Cache :=
  lines.foldl (fun c line => (c.fetch line).2) c

def after (n : Nat) (lines : List Line) : Cache := (empty n).fetchAll lines

def given (n : Nat) (before : List Line) (line : Line) : Except Fault Compiled :=
  ((after n before).fetch line).1

theorem fetchAll_append (c : Cache) (lines more : List Line) :
    c.fetchAll (lines ++ more) = (c.fetchAll lines).fetchAll more := List.foldl_append

theorem after_concat (n : Nat) (lines : List Line) (line : Line) :
    after n (lines ++ [line]) = ((after n lines).fetch line).2 :=
  fetchAll_append (empty n) lines [line]

def LastGiven (n : Nat) (lines : List Line) (source : Text) (compiled : Compiled) : Prop :=
  ∃ past since, lines = past ++ some source :: since ∧ some source ∉ since ∧
    given n past (some source) = .ok compiled

structure Remembers (n : Nat) (lines : List Line) (c : Cache) : Prop where
  capacity : c.capacity = n
  keys : Dictionary.keys c.held = (recent lines).take n
  held : ∀ e ∈ c.held, LastGiven n lines e.1 e.2
  made : ∀ past line rest compiled, lines = past ++ line :: rest →
    given n past line = .ok compiled → compiled.serial < c.made

section
variable {n : Nat} {lines : List Line} {c : Cache} {source : Text} {line : Line}

theorem LastGiven.concat {compiled : Compiled} (h : LastGiven n lines source compiled)
    (hne : line ≠ some source) : LastGiven n (lines ++ [line]) source compiled := by
  obtain ⟨past, since, rfl, hsince, hgiven⟩ := h
  refine ⟨past, since ++ [line], by simp, ?_, hgiven⟩
  intro hmem
  rcases List.mem_append.mp hmem with hmem | hmem
  · exact hsince hmem
  · exact hne (List.mem_singleton.mp hmem).symm

theorem fetch_of_held {compiled : Compiled} (h : Dictionary.find? c.held source = some compiled) :
    c.fetch (some source) = (.ok compiled,
      { c with held := (source, compiled) :: c.held.filter fun e => e.1 != source }) := by
  change c.compile source = _
  rw [compile, show c.held.lookup source = some compiled from h]

theorem fetch_of_not_held (h : Dictionary.find? c.held source = none) :
    c.fetch (some source) = c.make source := by
  change c.compile source = _
  rw [compile, show c.held.lookup source = none from h]

theorem make_eq {condition : Condition} (h : parse source = .ok condition) :
    c.make source = (.ok ⟨condition, c.made⟩,
      { c with held := ((source, ⟨condition, c.made⟩) :: c.held).take c.capacity
               made := c.made + 1 }) := by
  rw [make, h]

namespace Remembers

theorem find?_eq_none_iff (h : Remembers n lines c) :
    Dictionary.find? c.held source = none ↔ source ∉ (recent lines).take n := by
  rw [Dictionary.find?_eq_none_iff, h.keys]

theorem mem_recent_of_held (h : Remembers n lines c) {compiled : Compiled}
    (hheld : Dictionary.find? c.held source = some compiled) : source ∈ (recent lines).take n := by
  by_contra hnot
  rw [h.find?_eq_none_iff.mpr hnot] at hheld
  cases hheld

theorem sound_of_mem_recent (h : source ∈ recent lines) : sound? (some source) = some source := by
  obtain ⟨line, -, hline⟩ := List.mem_filterMap.mp (mem_recent_iff.mp h)
  exact (sound?_eq_some_iff.mp hline).1 ▸ hline

theorem sound_of_held (h : Remembers n lines c) {e : Text × Compiled} (he : e ∈ c.held) :
    sound? (some e.1) = some e.1 := by
  have hkey : e.1 ∈ (recent lines).take n := h.keys ▸ List.mem_map_of_mem he
  exact sound_of_mem_recent (List.mem_of_mem_take hkey)

theorem fetch_unsound (h : Remembers n lines c) (hline : sound? line = none) :
    ∃ fault, c.fetch line = (.error fault, c) := by
  cases line with
  | none => exact ⟨_, rfl⟩
  | some source =>
    have hnew : source ∉ (recent lines).take n := by
      intro hmem
      rw [sound_of_mem_recent (List.mem_of_mem_take hmem)] at hline
      cases hline
    rw [fetch_of_not_held (h.find?_eq_none_iff.mpr hnew), make]
    cases hparse : parse source with
    | error fault => exact ⟨fault, rfl⟩
    | ok condition => simp [sound?, hparse, Except.isOk, Except.toBool] at hline

/-- What is kept for a text stays what it was given last, if it is another that is compiled. -/
theorem held_concat (h : Remembers n lines c) {e : Text × Compiled} (he : e ∈ c.held)
    (hne : e.1 ≠ source) : LastGiven n (lines ++ [some source]) e.1 e.2 :=
  (h.held e he).concat fun heq => hne (Option.some.inj heq).symm

/-- All serial numbers so far lie below `bound` if the last one and those before do. -/
theorem made_concat (h : Remembers n lines c) {bound : Nat} (hle : c.made ≤ bound)
    (hlast : ∀ compiled, given n lines line = .ok compiled → compiled.serial < bound) :
    ∀ past line' rest compiled, lines ++ [line] = past ++ line' :: rest →
      given n past line' = .ok compiled → compiled.serial < bound := by
  intro past line' rest compiled hsplit hgiven
  rcases List.eq_nil_or_concat rest with rfl | ⟨rest', last, rfl⟩
  · obtain ⟨rfl, hline⟩ := List.append_inj' hsplit rfl
    obtain rfl : line = line' := by simpa using hline
    exact hlast compiled hgiven
  · rw [List.concat_eq_append, ← List.cons_append, ← List.append_assoc] at hsplit
    obtain ⟨hfront, -⟩ := List.append_inj' hsplit rfl
    exact Nat.lt_of_lt_of_le (h.made past line' rest' compiled hfront hgiven) hle

theorem next (h : Remembers n lines (after n lines)) (line : Line) :
    Remembers n (lines ++ [line]) (after n (lines ++ [line])) := by
  rw [after_concat]
  cases hsound : sound? line with
  | none =>
    obtain ⟨fault, hfetch⟩ := h.fetch_unsound hsound
    rw [hfetch]
    refine ⟨h.capacity, by rw [recent_concat_none hsound, h.keys], fun e he => ?_, ?_⟩
    · refine (h.held e he).concat fun heq => ?_
      rw [heq, h.sound_of_held he] at hsound
      cases hsound
    · refine h.made_concat (Nat.le_refl _) fun compiled hgiven => ?_
      rw [given, hfetch] at hgiven
      cases hgiven
  | some source =>
    obtain ⟨rfl, hok⟩ := sound?_eq_some_iff.mp hsound
    cases hheld : Dictionary.find? (after n lines).held source with
    | some compiled =>
      have hfetch := fetch_of_held hheld
      have hmem := h.mem_recent_of_held hheld
      have hgiven : given n lines (some source) = .ok compiled := by rw [given, hfetch]
      rw [hfetch]
      refine ⟨h.capacity, ?_, fun e he => ?_, ?_⟩
      · rw [recent_concat_some hsound, take_front_of_mem (nodup_recent lines) hmem, ← h.keys,
          Dictionary.keys, Dictionary.keys, List.filter_map]
        rfl
      · rcases List.mem_cons.mp he with rfl | he
        · exact ⟨lines, [], rfl, List.not_mem_nil, hgiven⟩
        · obtain ⟨he, hne⟩ := List.mem_filter.mp he
          exact h.held_concat he (by simpa using hne)
      · refine h.made_concat (Nat.le_refl _) fun compiled' hgiven' => ?_
        -- what is held was given before, so its number is not new
        obtain ⟨past, since, hsplit, -, hlast⟩ := h.held _ (Dictionary.mem_of_find? hheld)
        rw [hgiven] at hgiven'
        cases hgiven'
        exact h.made past _ since _ hsplit hlast
    | none =>
      obtain ⟨condition, hparse⟩ : ∃ condition, parse source = .ok condition := by
        cases hparse : parse source with
        | error fault => simp [hparse, Except.isOk, Except.toBool] at hok
        | ok condition => exact ⟨condition, rfl⟩
      have hfetch := (fetch_of_not_held hheld).trans (make_eq hparse)
      have hgiven : given n lines (some source) = .ok ⟨condition, (after n lines).made⟩ := by
        rw [given, hfetch]
      rw [hfetch]
      refine ⟨h.capacity, ?_, fun e he => ?_, ?_⟩
      · rw [recent_concat_some hsound,
          take_front_of_not_mem (h.find?_eq_none_iff.mp hheld), ← h.keys, h.capacity]
        exact List.map_take
      · rcases List.mem_cons.mp (List.mem_of_mem_take he) with rfl | he
        · exact ⟨lines, [], rfl, List.not_mem_nil, hgiven⟩
        · refine h.held_concat he fun heq => ?_
          have hkey : e.1 ∈ Dictionary.keys (after n lines).held := List.mem_map_of_mem he
          exact Dictionary.find?_eq_none_iff.mp hheld (heq ▸ hkey)
      · refine h.made_concat (Nat.le_succ _) fun compiled hgiven' => ?_
        rw [hgiven] at hgiven'
        cases hgiven'
        exact Nat.lt_succ_self _

end Remembers

theorem remembers (n : Nat) (lines : List Line) : Remembers n lines (after n lines) := by
  induction lines using List.reverseRecOn with
  | nil =>
    refine ⟨rfl, by simp [recent, after, fetchAll, empty, Dictionary.keys], fun e he => ?_, ?_⟩
    · exact absurd he List.not_mem_nil
    · intro past line rest compiled hsplit
      simp at hsplit
  | append_singleton lines line ih => exact ih.next line

theorem held_length_le (n : Nat) (lines : List Line) : (after n lines).held.length ≤ n := by
  have hkeys := congrArg List.length (remembers n lines).keys
  rw [Dictionary.keys, List.length_map] at hkeys
  rw [hkeys]
  exact List.length_take_le n _

theorem after_coherent (n : Nat) (lines : List Line) : (after n lines).Coherent := by
  induction lines using List.reverseRecOn with
  | nil => exact coherent_empty n
  | append_singleton lines line ih =>
    rw [after_concat]
    cases line with
    | none => exact ih
    | some source => exact (compile_coherent ih source).2

theorem given_condition (n : Nat) (before : List Line) (line : Line) :
    (given n before line).map Compiled.condition = parse? line := by
  cases line with
  | none => rfl
  | some source => exact (compile_coherent (after_coherent n before) source).1

theorem serial_of_not_held (h : Dictionary.find? c.held source = none) {compiled : Compiled}
    (hfetch : (c.fetch (some source)).1 = .ok compiled) : compiled.serial = c.made := by
  rw [fetch_of_not_held h, make] at hfetch
  cases hparse : parse source with
  | error fault =>
    rw [hparse] at hfetch
    cases hfetch
  | ok condition =>
    rw [hparse] at hfetch
    cases hfetch
    rfl

/-- What comes of compiling a line after others: it cannot be compiled; or its text was compiled
before, fewer others than there is room for came since, and it is given the same condition; or else
it is given a condition that nobody was given before. -/
inductive Outcome (n : Nat) (before : List Line) (line : Line) : Prop where
  | failed {fault : Fault} (malformed : parse? line = .error fault)
      (answer : given n before line = .error fault)
      (unchanged : after n (before ++ [line]) = after n before)
  | again {past since : List Line} {compiled : Compiled}
      (parsed : parse? line = .ok compiled.condition)
      (answer : given n before line = .ok compiled)
      (earlier : before = past ++ line :: since) (last : line ∉ since)
      (few : (successes since).toFinset.card < n) (same : given n past line = .ok compiled)
  | anew {compiled : Compiled} (parsed : parse? line = .ok compiled.condition)
      (answer : given n before line = .ok compiled)
      (many : ∀ past since, before = past ++ line :: since → line ∉ since →
        n ≤ (successes since).toFinset.card)
      (fresh : ∀ past other rest earlier, before = past ++ other :: rest →
        given n past other = .ok earlier → earlier.serial ≠ compiled.serial)

theorem outcome_of_held {n : Nat} {before : List Line} {source : Text} {compiled : Compiled}
    (h : Dictionary.find? (after n before).held source = some compiled) :
    Outcome n before (some source) := by
  have hremembers := remembers n before
  have hheld := Dictionary.mem_of_find? h
  have hgiven : given n before (some source) = .ok compiled := by rw [given, fetch_of_held h]
  have hmem := hremembers.mem_recent_of_held h
  obtain ⟨past, since, rfl, hlast, hsame⟩ := hremembers.held _ hheld
  have hfew := (mem_take_recent_iff (hremembers.sound_of_held hheld) hlast n).mp hmem
  have hparsed := given_condition n (past ++ some source :: since) (some source)
  rw [hgiven] at hparsed
  exact .again hparsed.symm hgiven rfl hlast hfew hsame

theorem outcome_of_not_held {n : Nat} {before : List Line} {source : Text} {compiled : Compiled}
    (h : Dictionary.find? (after n before).held source = none)
    (hgiven : given n before (some source) = .ok compiled) : Outcome n before (some source) := by
  have hremembers := remembers n before
  have hparsed := given_condition n before (some source)
  rw [hgiven] at hparsed
  have hsound : sound? (some source) = some source :=
    sound?_eq_some_iff.mpr ⟨rfl, by rw [show parse source = _ from hparsed.symm]; rfl⟩
  refine .anew hparsed.symm hgiven (fun past since hsplit hlast => ?_)
    fun past other rest earlier hsplit hearlier => ?_
  · have hnot := hremembers.find?_eq_none_iff.mp h
    rw [hsplit, mem_take_recent_iff hsound hlast] at hnot
    exact Nat.le_of_not_lt hnot
  · rw [serial_of_not_held h hgiven]
    exact Nat.ne_of_lt (hremembers.made past other rest earlier hsplit hearlier)

theorem outcome_total (n : Nat) (before : List Line) (line : Line) : Outcome n before line := by
  have hcondition := given_condition n before line
  cases hgiven : given n before line with
  | error fault =>
    have hmalformed : parse? line = .error fault := by rw [← hcondition, hgiven]; rfl
    refine .failed hmalformed hgiven ?_
    have hunsound : sound? line = none := by
      cases line with
      | none => rfl
      | some source =>
        have hparse : parse source = .error fault := hmalformed
        simp [sound?, hparse, Except.isOk, Except.toBool]
    obtain ⟨fault', hfetch⟩ := (remembers n before).fetch_unsound hunsound
    rw [after_concat, hfetch]
  | ok compiled =>
    cases line with
    | none =>
      rw [hgiven] at hcondition
      cases hcondition
    | some source =>
      cases hheld : Dictionary.find? (after n before).held source with
      | some compiled' => exact outcome_of_held hheld
      | none => exact outcome_of_not_held hheld hgiven

end

end Cache

end Conditions.Evaluator
