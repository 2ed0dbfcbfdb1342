import Conditions.Proofs.Placeholder.Convergence

/-!
# Scanning for references

A style is looked for from the left: a match begins at the first index at which there is one, and
the search goes on behind it. So every text falls apart in one way into segments that nothing
matches in and the matches between them. Substituting keeps the segments and asks the handlers for
the matches, one after the other.
-/

set_option autoImplicit false

namespace Conditions.Placeholder

variable {κ σ : Type}

structure Style.Matches (s : Style) (t name after : Text) : Prop where
  text : t = s.opening :: (name ++ s.closing :: after)
  nonempty : name ≠ []
  allowed : ∀ c ∈ name, s.allows c = true
  maximal : s.allows s.closing = false

def Style.Untouched (s : Style) (segment rest : Text) : Prop :=
  ∀ i < segment.length, ∀ name after, ¬ s.Matches ((segment ++ rest).drop i) name after

/-- What a scan finds: matches, each by its name with the segment in front of it, and the segment
behind the last one. -/
structure Scan where
  found : List (Text × Text)
  last : Text

inductive Style.Splits (s : Style) : Text → Scan → Prop
  | nothing {segment : Text} (untouched : s.Untouched segment []) : s.Splits segment ⟨[], segment⟩
  | next {segment t name after : Text} {scan : Scan} (untouched : s.Untouched segment t)
      (hit : s.Matches t name after) (behind : s.Splits after scan) :
      s.Splits (segment ++ t) ⟨(segment, name) :: scan.found, scan.last⟩

def Style.Closes (s : Style) : Prop := s.allows s.closing = false

theorem brace_closes : brace.Closes := rfl

theorem percent_closes : percent.Closes := rfl

section
variable {s : Style} {c : Char} {t segment name after : Text}

theorem Style.name?_eq_some_iff (hs : s.Closes) :
    s.name? t = some (name, after) ↔ s.Matches (s.opening :: t) name after := by
  constructor
  · intro h
    have htext := name?_eq_some h
    unfold name? at h
    split at h
    · cases h
    · simp only [Option.ite_none_right_eq_some, Bool.and_eq_true, Option.some.injEq,
        Prod.mk.injEq, Bool.not_eq_true', List.isEmpty_eq_false_iff] at h
      obtain ⟨⟨-, hne⟩, rfl, -⟩ := h
      exact ⟨congrArg (s.opening :: ·) htext, hne, List.all_eq_true.mp List.all_takeWhile, hs⟩
  · intro h
    obtain rfl : t = name ++ s.closing :: after := List.tail_eq_of_cons_eq h.text
    exact name?_closing h.nonempty h.allowed hs after

theorem Style.Matches.cut (h : s.Matches t name after) :
    s.cut t = .reference name :: s.cut after := by
  rw [h.text]
  exact cut_reference (name?_closing h.nonempty h.allowed h.maximal after)

theorem Style.untouched_cons :
    s.Untouched (c :: segment) t ↔
      (∀ name after, ¬ s.Matches (c :: (segment ++ t)) name after) ∧ s.Untouched segment t := by
  constructor
  · intro h
    exact ⟨h 0 (Nat.zero_lt_succ _), fun i hi => h (i + 1) (Nat.succ_lt_succ hi)⟩
  · rintro ⟨hhere, hbehind⟩ (_ | i) hi
    · exact hhere
    · exact hbehind i (Nat.lt_of_succ_lt_succ hi)

theorem Style.Untouched.cut (hs : s.Closes) (h : s.Untouched segment t) :
    s.cut (segment ++ t) = segment.map .plain ++ s.cut t := by
  induction segment with
  | nil => rfl
  | cons c segment ih =>
    obtain ⟨hhere, hbehind⟩ := untouched_cons.mp h
    have hplain : c = s.opening → s.name? (segment ++ t) = none := by
      rintro rfl
      rw [Option.eq_none_iff_forall_ne_some]
      rintro ⟨name, after⟩ hfound
      exact hhere name after ((name?_eq_some_iff hs).mp hfound)
    rw [List.cons_append, cut_plain hplain, ih hbehind]
    rfl

end

namespace Scan

def plain (c : Char) : Scan → Scan
  | ⟨[], last⟩ => ⟨[], c :: last⟩
  | ⟨(segment, name) :: found, last⟩ => ⟨(c :: segment, name) :: found, last⟩

def ofPieces : List Piece → Scan
  | [] => ⟨[], []⟩
  | .plain c :: rest => (ofPieces rest).plain c
  | .reference name :: rest => ⟨([], name) :: (ofPieces rest).found, (ofPieces rest).last⟩

theorem ofPieces_plain (segment : Text) :
    ofPieces (segment.map .plain) = ⟨[], segment⟩ := by
  induction segment with
  | nil => rfl
  | cons c segment ih => rw [List.map_cons, ofPieces, ih, plain]

theorem ofPieces_reference (segment name : Text) (pieces : List Piece) :
    ofPieces (segment.map .plain ++ .reference name :: pieces) =
      ⟨(segment, name) :: (ofPieces pieces).found, (ofPieces pieces).last⟩ := by
  induction segment with
  | nil => rfl
  | cons c segment ih => rw [List.map_cons, List.cons_append, ofPieces, ih, plain]

end Scan

section
variable {s : Style} {c : Char} {t : Text} {scan : Scan}

theorem Style.Splits.plain (h : s.Splits t scan)
    (hc : ∀ name after, ¬ s.Matches (c :: t) name after) : s.Splits (c :: t) (scan.plain c) := by
  cases h with
  | nothing untouched =>
    refine .nothing (untouched_cons.mpr ⟨?_, untouched⟩)
    rwa [List.append_nil]
  | next untouched hit behind => exact .next (untouched_cons.mpr ⟨hc, untouched⟩) hit behind

theorem Style.splits_cut (hs : s.Closes) (t : Text) : s.Splits t (.ofPieces (s.cut t)) := by
  fun_induction s.cut t with
  | case1 => exact .nothing fun i hi => absurd hi (Nat.not_lt_zero i)
  | case2 rest name after hname ih =>
    have hhere : s.Untouched [] (s.opening :: rest) := fun i hi => absurd hi (Nat.not_lt_zero i)
    exact .next hhere ((name?_eq_some_iff hs).mp hname) ih
  | case3 rest hname ih =>
    refine ih.plain fun name after hmatches => ?_
    rw [(name?_eq_some_iff hs).mpr hmatches] at hname
    cases hname
  | case4 c rest hc ih =>
    exact ih.plain fun name after hmatches => hc (List.head_eq_of_cons_eq hmatches.text)

theorem Style.splits_iff (hs : s.Closes) : s.Splits t scan ↔ scan = .ofPieces (s.cut t) := by
  constructor
  · intro h
    induction h with
    | nothing untouched =>
      have hcut := untouched.cut hs
      rw [cut, List.append_nil, List.append_nil] at hcut
      rw [hcut, Scan.ofPieces_plain]
    | next untouched hit behind ih =>
      rw [untouched.cut hs, hit.cut, Scan.ofPieces_reference, ← ih]
  · rintro rfl
    exact splits_cut hs t

end

namespace Registry

def replacement (r : Registry κ σ) (s : Style) (caller : κ) (name : Text) : Action σ Text :=
  match r.find? name with
  | some (handler, raw) => handler caller raw
  | none => pure (s.opening :: name ++ [s.closing])

def replaceScan (r : Registry κ σ) (s : Style) (caller : κ) (scan : Scan) : Action σ Text := do
  let shown ← scan.found.mapM fun (segment, name) => do
    let text ← r.replacement s caller name
    pure (segment ++ text)
  pure (shown.flatten ++ scan.last)

variable (r : Registry κ σ) (s : Style) (caller : κ)

theorem replaceScan_found (segment name : Text) (scan : Scan) :
    r.replaceScan s caller ⟨(segment, name) :: scan.found, scan.last⟩ =
      (do
        let text ← r.replacement s caller name
        let behind ← r.replaceScan s caller scan
        pure (segment ++ text ++ behind)) := by
  simp [replaceScan]

theorem replaceScan_plain (c : Char) (scan : Scan) :
    r.replaceScan s caller (scan.plain c) = (c :: ·) <$> r.replaceScan s caller scan := by
  obtain ⟨_ | ⟨⟨segment, name⟩, found⟩, last⟩ := scan
  · rfl
  · simp [Scan.plain, replaceScan]

/-- Pieces are replaced by asking for the matches among them in their order. -/
theorem replacePieces_eq (pieces : List Piece) :
    replacePieces r s caller pieces = r.replaceScan s caller (.ofPieces pieces) := by
  induction pieces with
  | nil => rfl
  | cons p rest ih =>
    rw [replacePieces, ih]
    cases p with
    | plain c =>
      rw [Scan.ofPieces, replaceScan_plain]
      simp [replacePiece]
    | reference name =>
      rw [Scan.ofPieces, replaceScan_found]
      rfl

variable {r s}

theorem substitute_eq {t : Text} {scan : Scan} (hs : s.Closes) (h : s.Splits t scan) :
    substitute r s caller t = r.replaceScan s caller scan := by
  rw [substitute, replacePieces_eq, (Style.splits_iff hs).mp h]

theorem replaceScan_unanswered {t : Text} {scan : Scan} (h : s.Splits t scan)
    (hidle : ∀ hit ∈ scan.found, r.find? hit.2 = none) :
    r.replaceScan s caller scan = pure t := by
  induction h with
  | nothing untouched => rfl
  | @next segment t name after scan untouched hit behind ih =>
    have hname : r.replacement s caller name = pure (s.opening :: name ++ [s.closing]) := by
      rw [replacement, hidle (segment, name) List.mem_cons_self]
    have hbehind := ih fun hit hmem => hidle hit (List.mem_cons_of_mem _ hmem)
    rw [replaceScan_found, hname, hbehind, pure_bind, pure_bind, hit.text]
    simp

theorem repeatPass_unchanged {t : Text} (h : pass r caller t = pure t) (left : Nat) :
    repeatPass r caller (left + 1) t = pure ⟨t, true⟩ := by
  rw [repeatPass, h, pure_bind, if_pos (by simp)]

end Registry

/-- In either style a text falls apart in exactly one way into segments and matches, each match at
the first index there is, and substituting replaces the matches from the left, each by asking its
handler once, or by itself if it has none. So a text in which no match has a handler is resolved to
itself, without asking any handler and without a warning. -/
theorem substitute_from_left (r : Registry κ σ) (caller : κ) :
    (∀ style, style = brace ∨ style = percent → ∀ t, ∃ scan, style.Splits t scan ∧
      (∀ other, style.Splits t other → other = scan) ∧
      substitute r style caller t = r.replaceScan style caller scan) ∧
    ∀ t, (∀ style, style = brace ∨ style = percent → ∀ scan, style.Splits t scan →
        ∀ hit ∈ scan.found, ¬ r.Knows hit.2) →
      expand r caller t [] = pure ⟨t, true⟩ ∧
        ∀ s, r.resolver.resolve caller t s = ⟨.ok t, [], s⟩ := by
  have hcloses : ∀ style, style = brace ∨ style = percent → style.Closes := by
    rintro _ (rfl | rfl)
    · exact brace_closes
    · exact percent_closes
  constructor
  · intro style hstyle t
    have hsplits := Style.splits_cut (hcloses style hstyle) t
    refine ⟨_, hsplits, fun other hother => ?_, ?_⟩
    · exact (Style.splits_iff (hcloses style hstyle)).mp hother
    · exact Registry.substitute_eq caller (hcloses style hstyle) hsplits
  · intro t hknown
    have hstays : ∀ style, style = brace ∨ style = percent →
        substitute r style caller t = pure t := by
      intro style hstyle
      have hsplits := Style.splits_cut (hcloses style hstyle) t
      rw [Registry.substitute_eq caller (hcloses style hstyle) hsplits]
      refine Registry.replaceScan_unanswered caller hsplits fun hit hmem => ?_
      exact Registry.find?_eq_none_iff.mpr (hknown style hstyle _ hsplits hit hmem)
    have hpass : pass r caller t = pure t := by
      rw [pass, hstays brace (.inl rfl), pure_bind, hstays percent (.inr rfl)]
    have hexpand : expand r caller t [] = pure ⟨t, true⟩ :=
      Registry.repeatPass_unchanged caller hpass 9
    refine ⟨hexpand, fun s => ?_⟩
    change r.reply [] caller t s = _
    rw [Registry.reply, hexpand]
    rfl

/-- A sign that has closed one match does not open another, and a sign in front of a blank opens
none. Nobody answers for `a` or `x`, so the second text stays, and nothing is counted. -/
theorem substitute_from_left_shared_sign :
    (∃ scan, percent.Splits "%n%n% {n} 5%".toList scan ∧
      scan = ⟨[([], ['n'])], "n% {n} 5%".toList⟩ ∧
      substitute tally percent () "%n%n% {n} 5%".toList = tally.replaceScan percent () scan) ∧
    expand tally () "%a%b% {x}".toList [] = pure ⟨"%a%b% {x}".toList, true⟩ := by
  obtain ⟨hfalls, hstays⟩ := substitute_from_left tally ()
  constructor
  · obtain ⟨scan, hsplits, -, hsubstitute⟩ := hfalls percent (.inr rfl) "%n%n% {n} 5%".toList
    have hscan := (Style.splits_iff percent_closes).mp hsplits
    have hcut : percent.cut "%n%n% {n} 5%".toList =
        .reference ['n'] :: ("n% {n} 5%".toList).map .plain := by decide +kernel
    rw [hcut, Scan.ofPieces, Scan.ofPieces_plain] at hscan
    exact ⟨scan, hsplits, hscan, hsubstitute⟩
  · have hbrace : brace.cut "%a%b% {x}".toList =
        ("%a%b% ".toList).map .plain ++ [.reference ['x']] := by decide +kernel
    have hpercent : percent.cut "%a%b% {x}".toList =
        .reference ['a'] :: ("b% {x}".toList).map .plain := by decide +kernel
    refine (hstays "%a%b% {x}".toList ?_).1
    rintro _ (rfl | rfl) scan hsplits hit hmem
    · rw [Style.splits_iff brace_closes, hbrace, Scan.ofPieces_reference] at hsplits
      rw [hsplits, Scan.ofPieces, List.mem_singleton] at hmem
      rw [hmem, ← Registry.find?_eq_none_iff]
      rfl
    · rw [Style.splits_iff percent_closes, hpercent, Scan.ofPieces, Scan.ofPieces_plain] at hsplits
      rw [hsplits, List.mem_singleton] at hmem
      rw [hmem, ← Registry.find?_eq_none_iff]
      rfl

end Conditions.Placeholder
