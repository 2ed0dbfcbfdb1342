import Conditions.Proofs.Placeholder.Lookup
import Conditions.Proofs.Placeholder.Passes

/-!
# Plain values let a text settle

Handlers whose texts have no delimiter take delimiters out of a text and put none in. Whenever a
pass changes the text, at least two of them go, so a text with few of them settles within the passes
there are. A text that has settled has no reference left that anybody answers for.
-/

set_option autoImplicit false

namespace Conditions.Placeholder

variable {κ σ : Type}

section
variable {s : Style} {t name after : Text}

theorem Style.name?_eq_some (h : s.name? t = some (name, after)) :
    t = name ++ s.closing :: after := by
  unfold name? at h
  cases hdrop : t.dropWhile s.allows with
  | nil => simp [hdrop] at h
  | cons c rest =>
    simp only [hdrop, Option.ite_none_right_eq_some, Bool.and_eq_true, decide_eq_true_eq,
      Option.some.injEq, Prod.mk.injEq] at h
    obtain ⟨⟨rfl, -⟩, rfl, rfl⟩ := h
    rw [← hdrop, List.takeWhile_append_dropWhile]

variable (s t) in
theorem Style.flatMap_cut : (s.cut t).flatMap s.verbatim = t := by
  fun_induction s.cut t with
  | case1 => rfl
  | case2 rest name after hname ih =>
    rw [List.flatMap_cons, ih, Style.name?_eq_some hname]
    simp [verbatim]
  | case3 rest hname ih => rw [List.flatMap_cons, ih]; rfl
  | case4 c rest hc ih => rw [List.flatMap_cons, ih]; rfl

end

def isDelimiter (c : Char) : Bool := c == '%' || c == '{' || c == '}'

def delimiters (t : Text) : Nat := t.countP isDelimiter

theorem delimiters_append (t u : Text) : delimiters (t ++ u) = delimiters t + delimiters u :=
  List.countP_append

theorem isClosed_of_delimiters {t : Text} (h : delimiters t = 0) : isClosed t = true := by
  have hnone : ∀ c ∈ t, isDelimiter c = false := by
    simpa [delimiters, List.countP_eq_zero] using h
  exact isClosed_iff.mpr
    ⟨fun hmem => Bool.noConfusion (hnone _ hmem), fun hmem => Bool.noConfusion (hnone _ hmem)⟩

structure Style.Delimited (s : Style) : Prop where
  opening : isDelimiter s.opening = true
  closing : isDelimiter s.closing = true

theorem brace_delimited : brace.Delimited := ⟨rfl, rfl⟩

theorem percent_delimited : percent.Delimited := ⟨rfl, rfl⟩

theorem Style.Delimited.reference {s : Style} (hs : s.Delimited) (name : Text) :
    2 ≤ delimiters (s.verbatim (.reference name)) := by
  unfold delimiters verbatim
  rw [List.countP_append, List.countP_cons_of_pos hs.opening, List.countP_singleton,
    if_pos hs.closing]
  omega

def Thins (quiet : Prop) (t t' : Text) : Prop :=
  t' = t ∧ quiet ∨ delimiters t' + 2 ≤ delimiters t

theorem Thins.append {quiet quiet' : Prop} {t t' u u' : Text} (h : Thins quiet t t')
    (h' : Thins quiet' u u') : Thins (quiet ∧ quiet') (t ++ u) (t' ++ u') := by
  unfold Thins
  rw [delimiters_append, delimiters_append]
  rcases h with ⟨rfl, hquiet⟩ | hless <;> rcases h' with ⟨rfl, hquiet'⟩ | hless'
  · exact .inl ⟨rfl, hquiet, hquiet'⟩
  all_goals exact .inr (by omega)

def Yields {α : Type} (act : Action σ α) (kind : α → Prop) : Prop :=
  ∀ s, ∃ a s', act.run.run s = (.ok a, s') ∧ kind a

namespace Yields

variable {α β : Type} {act : Action σ α} {kind : α → Prop}

theorem pure {a : α} (h : kind a) : Yields (Pure.pure a : Action σ α) kind :=
  fun s => ⟨a, s, rfl, h⟩

theorem bind {next : α → Action σ β} {kind' : β → Prop} (h : Yields act kind)
    (h' : ∀ a, kind a → Yields (next a) kind') : Yields (act >>= next) kind' := by
  intro s
  obtain ⟨a, s', hact, ha⟩ := h s
  obtain ⟨b, s'', hnext, hb⟩ := h' a ha s'
  refine ⟨b, s'', ?_, hb⟩
  rw [ExceptT.run_bind, StateT.run_bind, hact]
  exact hnext

theorem mono {kind' : α → Prop} (h : Yields act kind) (himp : ∀ a, kind a → kind' a) :
    Yields act kind' := fun s =>
  have ⟨a, s', hact, ha⟩ := h s
  ⟨a, s', hact, himp a ha⟩

end Yields

namespace Registry

def Bland (r : Registry κ σ) : Prop :=
  ∀ key h, Dictionary.find? r key = some h → ∀ caller raw,
    Yields (h caller raw) fun t => ∀ c ∈ t, isDelimiter c = false

def Unanswered (r : Registry κ σ) (pieces : List Piece) : Prop :=
  ∀ name, .reference name ∈ pieces → ¬ r.Knows name

def Rests (r : Registry κ σ) (t : Text) : Prop :=
  r.Unanswered (brace.cut t) ∧ r.Unanswered (percent.cut t)

theorem rests_of_closed (r : Registry κ σ) {t : Text} (h : isClosed t = true) : r.Rests t := by
  obtain ⟨hpercent, hbrace⟩ := isClosed_iff.mp h
  have hplain : ∀ name, Piece.reference name ∉ t.map Piece.plain := by simp
  constructor
  · intro name hname
    rw [Style.cut_closed hbrace] at hname
    exact absurd hname (hplain name)
  · intro name hname
    rw [Style.cut_closed hpercent] at hname
    exact absurd hname (hplain name)

namespace Bland

variable {r : Registry κ σ} (hr : r.Bland) {s : Style} (hs : s.Delimited) (caller : κ)
include hr

section
include hs

theorem replacePiece (p : Piece) :
    Yields (Placeholder.replacePiece r s caller p) (Thins (r.Unanswered [p]) (s.verbatim p)) := by
  cases p with
  | plain c => exact .pure (.inl ⟨rfl, fun name hname => by simp at hname⟩)
  | reference name =>
    unfold Placeholder.replacePiece
    dsimp only
    cases hfound : r.find? name with
    | none =>
      refine .pure (.inl ⟨rfl, fun name' hname => ?_⟩)
      obtain rfl : name' = name := by simpa using hname
      exact find?_eq_none_iff.mp hfound
    | some found =>
      obtain ⟨key, hkey⟩ := find?_key hfound
      refine (hr key found.1 hkey caller found.2).mono fun t ht => .inr ?_
      have hnone : delimiters t = 0 := List.countP_eq_zero.mpr fun c hc => by simp [ht c hc]
      have htwo := hs.reference name
      omega

theorem replacePieces (pieces : List Piece) :
    Yields (Placeholder.replacePieces r s caller pieces)
      (Thins (r.Unanswered pieces) (pieces.flatMap s.verbatim)) := by
  induction pieces with
  | nil => exact .pure (.inl ⟨rfl, fun name hname => by cases hname⟩)
  | cons p rest ih =>
    rw [Placeholder.replacePieces, List.flatMap_cons]
    refine (hr.replacePiece hs caller p).bind fun front hfront => ih.bind fun back hback => .pure ?_
    rcases hfront.append hback with ⟨hsame, hp, hrest⟩ | hless
    · refine .inl ⟨hsame, fun name hname => ?_⟩
      rcases List.mem_cons.mp hname with hhere | hthere
      · exact hp name (List.mem_singleton.mpr hhere)
      · exact hrest name hthere
    · exact .inr hless

theorem substitute (t : Text) :
    Yields (Placeholder.substitute r s caller t) (Thins (r.Unanswered (s.cut t)) t) := by
  have hpieces := hr.replacePieces hs caller (s.cut t)
  rwa [s.flatMap_cut t] at hpieces

end

/-- A pass leaves a text alone if nobody answers for any reference in it. -/
theorem pass (t : Text) : Yields (Placeholder.pass r caller t)
    (Thins (r.Rests t) t) := by
  refine (hr.substitute brace_delimited caller t).bind fun t' hbrace => ?_
  refine (hr.substitute percent_delimited caller t').mono fun t'' hpercent => ?_
  rcases hbrace with ⟨rfl, hquiet⟩ | hless
  · exact hpercent.imp_left fun ⟨hsame, hquiet'⟩ => ⟨hsame, hquiet, hquiet'⟩
  · rcases hpercent with ⟨rfl, -⟩ | hless'
    · exact .inr hless
    · exact .inr (by omega)

/-- As many passes as there are pairs of delimiters are enough, if there is any pass at all. -/
theorem repeatPass (left : Nat) (t : Text) : Yields (Placeholder.repeatPass r caller left t)
    fun e => (0 < left → delimiters t ≤ 2 * left → e.settled = true) ∧
      (e.settled = true → r.Rests e.text) := by
  induction left generalizing t with
  | zero => exact .pure ⟨fun hleft => absurd hleft (Nat.lt_irrefl 0), fun h => by cases h⟩
  | succ left ih =>
    refine (hr.pass caller t).bind fun t' hpass => ?_
    split
    · rename_i hdone
      refine .pure ⟨fun _ _ => rfl, fun _ => ?_⟩
      rcases Bool.or_eq_true_iff.mp hdone with hsame | hclosed
      · rcases hpass with ⟨rfl, hrests⟩ | hless
        · exact hrests
        · rw [of_decide_eq_true hsame] at hless
          omega
      · exact rests_of_closed r hclosed
    · rename_i hgoes
      simp only [Bool.or_eq_true, decide_eq_true_eq, not_or, Bool.not_eq_true] at hgoes
      have hless : delimiters t' + 2 ≤ delimiters t := hpass.resolve_left fun h => hgoes.1 h.1
      -- the text is not closed, so there is a delimiter left to take out
      have hsome : delimiters t' ≠ 0 := fun hzero => by
        rw [isClosed_of_delimiters hzero] at hgoes
        cases hgoes.2
      refine (ih t').mono fun e he => ⟨fun _ hfew => he.1 (by omega) (by omega), he.2⟩

end Bland

end Registry

/-- When no handler fails and no text of a handler has a delimiter, every pass that changes a text
takes two delimiters out of it at least. So a text with twenty of them or less, custom values put
in, settles without a warning; and when there is no warning, nobody answers for any reference of
the text that comes out. -/
theorem delimiterless_values_converge {r : Registry κ σ} (hr : r.Bland) (caller : κ) :
    (∀ t s, ∃ t' s', (pass r caller t).run.run s = (.ok t', s') ∧
      (t' ≠ t → delimiters t' + 2 ≤ delimiters t)) ∧
    ∀ custom t s, ∃ u entries s', r.reply custom caller t s = ⟨.ok u, entries, s'⟩ ∧
      (entries = [] ∨ entries = [unsettled u]) ∧
      (delimiters (applyCustom custom t) ≤ 20 → entries = []) ∧
      (entries = [] → ∀ style, style = brace ∨ style = percent →
        ∀ name, .reference name ∈ style.cut u → ¬ r.Knows name) := by
  constructor
  · intro t s
    obtain ⟨t', s', hrun, hpass⟩ := hr.pass caller t s
    exact ⟨t', s', hrun, fun hchanged => hpass.resolve_left fun h => hchanged h.1⟩
  · intro custom t s
    obtain ⟨⟨u, settled⟩, s', hrun, hfew, hrests⟩ :=
      hr.repeatPass caller maxPasses (applyCustom custom t) s
    refine ⟨u, if settled then [] else [unsettled u], s', ?_, ?_, fun hcount => ?_, ?_⟩
    · unfold Registry.reply expand
      rw [hrun]
    · cases settled with
      | true => exact .inl rfl
      | false => exact .inr rfl
    · obtain rfl : settled = true := hfew (by decide) hcount
      rfl
    · intro hsilent
      cases settled with
      | false => cases hsilent
      | true =>
        rintro _ (rfl | rfl)
        · exact (hrests rfl).1
        · exact (hrests rfl).2

def tally : Registry Unit Nat :=
  [("n".toList, fun _ _ => do
    let count ← get
    set (count + 1)
    pure (List.replicate count '|'))]

theorem tally_bland : tally.Bland := by
  intro key h hfound caller raw count
  have hmem := Dictionary.mem_of_find? hfound
  simp only [tally, List.mem_singleton, Prod.mk.injEq] at hmem
  obtain ⟨-, rfl⟩ := hmem
  refine ⟨_, _, rfl, fun c hc => ?_⟩
  rw [List.eq_of_mem_replicate hc]
  rfl

def nest : Nat → Text
  | 0 => []
  | depth + 1 => "\x7bn_".toList ++ nest depth ++ "\x7d".toList

/-- The innermost reference is replaced in each pass, and the tenth pass replaces the last one. -/
theorem tally_nest_converges : tally.Bland ∧ delimiters (nest 10) = 20 ∧
    (tally.reply [] () (nest 10) 0).answer.toOption = some (List.replicate 9 '|') ∧
      (tally.reply [] () (nest 10) 0).entries = [] := by
  obtain ⟨-, hreply⟩ := delimiterless_values_converge tally_bland ()
  obtain ⟨u, entries, s', hrun, -, hfew, -⟩ := hreply [] (nest 10) 0
  have hcount : delimiters (nest 10) = 20 := by decide
  refine ⟨tally_bland, hcount, by decide +kernel, ?_⟩
  rw [hrun]
  exact hfew (Nat.le_of_eq hcount)

-- two delimiters more are too many
example : delimiters (nest 11) = 22 ∧ (tally.reply [] () (nest 11) 0).entries ≠ [] := by
  decide +kernel

end Conditions.Placeholder
