import Conditions.Placeholder.Resolver
import Conditions.Proofs.Dictionary
import Mathlib.Logic.Function.Iterate
import Mathlib.Tactic.Choose

/-!
# Ten passes over a text

Handlers that remember nothing and never fail make a pass a function from texts to texts. A text
that a pass leaves alone, or that has no delimiter left, stays as it is in all further passes, so
to stop there is no different from going on: what is resolved has gone through ten passes.
-/

set_option autoImplicit false

namespace Conditions.Placeholder

variable {κ σ : Type}

section
variable {s : Style} {c : Char} {t : Text}

theorem Style.cut_reference {name after : Text} (h : s.name? t = some (name, after)) :
    s.cut (s.opening :: t) = .reference name :: s.cut after := by
  rw [cut, if_pos rfl]
  split
  · rename_i found hfound
    rw [h] at hfound
    cases hfound
    rfl
  · rename_i hfound
    rw [h] at hfound
    cases hfound

theorem Style.cut_plain (h : c = s.opening → s.name? t = none) :
    s.cut (c :: t) = .plain c :: s.cut t := by
  rw [cut]
  split
  · rename_i hc
    split
    · rename_i hfound
      rw [h hc] at hfound
      cases hfound
    · rfl
  · rfl

theorem Style.cut_closed (h : s.opening ∉ t) : s.cut t = t.map .plain := by
  induction t with
  | nil => rw [cut, List.map_nil]
  | cons c t ih =>
    rw [List.mem_cons, not_or] at h
    have hc : c ≠ s.opening := fun hc => h.1 hc.symm
    rw [cut_plain fun hopen => absurd hopen hc, ih h.2, List.map_cons]

theorem Style.name?_closing {name : Text} (hname : name ≠ [])
    (hallows : ∀ c ∈ name, s.allows c = true) (hclosing : s.allows s.closing = false)
    (after : Text) :
    s.name? (name ++ s.closing :: after) = some (name, after) := by
  unfold name?
  rw [List.takeWhile_append_of_pos hallows, List.dropWhile_append_of_pos hallows]
  simp [hclosing, hname]

end

section
variable {r : Registry κ σ} {caller : κ}

theorem replacePieces_plain (s : Style) (t : Text) :
    replacePieces r s caller (t.map .plain) = pure t := by
  induction t with
  | nil => rfl
  | cons c t ih => rw [List.map_cons, replacePieces, ih]; rfl

/-- A pass over a reference in percent signs comes to replacing it. -/
theorem pass_reference {name : Text} (hname : name ≠ [])
    (hallows : ∀ c ∈ name, percent.allows c = true) (hbrace : brace.opening ∉ name) :
    pass r caller (percent.verbatim (.reference name)) =
      replacePiece r percent caller (.reference name) := by
  have hplain : substitute r brace caller (percent.verbatim (.reference name)) =
      pure (percent.verbatim (.reference name)) := by
    have hopening : brace.opening ∉ percent.verbatim (.reference name) := by
      simp only [Style.verbatim, List.mem_append, List.mem_cons, List.not_mem_nil, or_false, not_or]
      exact ⟨⟨by decide, hbrace⟩, by decide⟩
    rw [substitute, Style.cut_closed hopening, replacePieces_plain]
  have hcut : percent.cut (percent.verbatim (.reference name)) = [.reference name] := by
    have hfound := Style.name?_closing hname hallows rfl []
    rw [Style.verbatim, List.cons_append, Style.cut_reference hfound, Style.cut]
  rw [pass, hplain, pure_bind, substitute, hcut, replacePieces]
  simp [replacePieces]

/-- A reference that is replaced by a closed text resolves to it at once. -/
theorem resolve_reference {name t : Text} (hname : name ≠ [])
    (hallows : ∀ c ∈ name, percent.allows c = true) (hbrace : brace.opening ∉ name)
    (hreplaced : replacePiece r percent caller (.reference name) = pure t)
    (hclosed : isClosed t = true) (s : σ) :
    r.resolver.resolve caller (percent.verbatim (.reference name)) s = ⟨.ok t, [], s⟩ := by
  change Registry.reply r [] caller _ s = _
  unfold Registry.reply expand maxPasses applyCustom
  rw [List.foldl_nil, repeatPass, pass_reference hname hallows hbrace, hreplaced, pure_bind,
    if_pos (Bool.or_eq_true_iff.mpr (.inr hclosed))]
  rfl

end

def Style.shown (s : Style) (answers : Text → Option Text) : Piece → Text
  | .plain c => [c]
  | .reference name => (answers name).getD (s.verbatim (.reference name))

def Style.fill (s : Style) (answers : Text → Option Text) (t : Text) : Text :=
  (s.cut t).flatMap (s.shown answers)

def rewrite (answers : Text → Option Text) (t : Text) : Text :=
  percent.fill answers (brace.fill answers t)

theorem Style.fill_closed {s : Style} {t : Text} (h : s.opening ∉ t)
    (answers : Text → Option Text) : s.fill answers t = t := by
  rw [fill, cut_closed h, List.flatMap_map]
  exact List.flatMap_singleton' t

theorem isClosed_iff {t : Text} :
    isClosed t = true ↔ percent.opening ∉ t ∧ brace.opening ∉ t := by
  simp [isClosed, percent, brace]

theorem rewrite_closed {t : Text} (h : isClosed t = true) (answers : Text → Option Text) :
    rewrite answers t = t := by
  obtain ⟨hnoPercent, hnoBrace⟩ := isClosed_iff.mp h
  have hbrace : brace.fill answers t = t := Style.fill_closed hnoBrace answers
  have hpercent : percent.fill answers t = t := Style.fill_closed hnoPercent answers
  rw [rewrite, hbrace, hpercent]

namespace Registry

def Plain (r : Registry κ σ) : Prop :=
  ∀ key h, Dictionary.find? r key = some h →
    ∃ f : κ → Text → Text, ∀ caller raw, h caller raw = pure (f caller raw)

def Gives (r : Registry κ σ) (caller : κ) (answers : Text → Option Text) : Prop :=
  ∀ (s : Style) name, replacePiece r s caller (.reference name) =
    pure (s.shown answers (.reference name))

theorem find?_key {r : Registry κ σ} {name raw : Text} {h : Handler κ σ}
    (hfound : r.find? name = some (h, raw)) : ∃ key, Dictionary.find? r key = some h := by
  unfold find? at hfound
  split at hfound
  · rename_i h' hname
    cases hfound
    exact ⟨_, hname⟩
  · simp only [Option.bind_eq_bind, Option.bind_eq_some_iff, Option.pure_def, Option.some.injEq,
      Prod.mk.injEq] at hfound
    obtain ⟨_, -, h', hkey, rfl, -⟩ := hfound
    exact ⟨_, hkey⟩

/-- If each handler gives the callers in question the same text for a name, it gives them the same
answers. -/
theorem gives_of_find? {r : Registry κ σ} {among : κ → Prop}
    (h : ∀ name handler raw, r.find? name = some (handler, raw) →
      ∃ t, ∀ caller, among caller → handler caller raw = pure t) :
    ∃ answers, ∀ caller, among caller → r.Gives caller answers := by
  have hname : ∀ name, ∃ answer : Option Text, ∀ caller, among caller → ∀ s : Style,
      replacePiece r s caller (.reference name) =
        pure (answer.getD (s.verbatim (.reference name))) := by
    intro name
    cases hfound : r.find? name with
    | none => exact ⟨none, fun _ _ s => by simp only [replacePiece, hfound, Option.getD_none]⟩
    | some found =>
      obtain ⟨t, ht⟩ := h name found.1 found.2 hfound
      refine ⟨some t, fun caller hcaller s => ?_⟩
      simp only [replacePiece, hfound, Option.getD_some]
      exact ht caller hcaller
  choose answers hanswers using hname
  exact ⟨answers, fun caller hcaller s name => hanswers name caller hcaller s⟩

theorem Plain.gives {r : Registry κ σ} (hr : r.Plain) (caller : κ) :
    ∃ answers, r.Gives caller answers := by
  have hsame : ∀ name handler raw, r.find? name = some (handler, raw) →
      ∃ t, ∀ caller', caller' = caller → handler caller' raw = pure t := by
    intro name handler raw hfound
    obtain ⟨key, hkey⟩ := find?_key hfound
    obtain ⟨f, hf⟩ := hr key handler hkey
    refine ⟨f caller raw, ?_⟩
    rintro _ rfl
    exact hf _ raw
  obtain ⟨answers, hanswers⟩ := gives_of_find? hsame
  exact ⟨answers, hanswers caller rfl⟩

namespace Gives

variable {r : Registry κ σ} {caller : κ} {answers : Text → Option Text}
  (h : r.Gives caller answers)
include h

theorem replacePieces (s : Style) (pieces : List Piece) :
    Placeholder.replacePieces r s caller pieces = pure (pieces.flatMap (s.shown answers)) := by
  induction pieces with
  | nil => rfl
  | cons p rest ih =>
    have hp : replacePiece r s caller p = pure (s.shown answers p) := by
      cases p with
      | plain c => rfl
      | reference name => exact h s name
    rw [Placeholder.replacePieces, hp, ih, pure_bind, pure_bind, List.flatMap_cons]

theorem pass (t : Text) : Placeholder.pass r caller t = pure (rewrite answers t) := by
  unfold Placeholder.pass substitute
  rw [h.replacePieces, pure_bind, h.replacePieces]
  rfl

/-- Stopping early is no different from going on. A text has settled if the last pass left it alone
or closed it. -/
theorem repeatPass (left : Nat) (t : Text) :
    Placeholder.repeatPass r caller (left + 1) t = pure ⟨(rewrite answers)^[left + 1] t,
      (rewrite answers)^[left + 1] t = (rewrite answers)^[left] t ||
        isClosed ((rewrite answers)^[left + 1] t)⟩ := by
  induction left generalizing t with
  | zero =>
    rw [Placeholder.repeatPass, h.pass, pure_bind]
    cases hdone : rewrite answers t = t || isClosed (rewrite answers t) with
    | true => simp [hdone]
    | false => simp [hdone, Placeholder.repeatPass]
  | succ left ih =>
    rw [Placeholder.repeatPass, h.pass, pure_bind, Function.iterate_succ_apply _ (left + 1) t,
      Function.iterate_succ_apply _ left t]
    by_cases hdone : (rewrite answers t = t || isClosed (rewrite answers t)) = true
    · -- where the passes stop, the passes that are left change nothing
      have hfixed : rewrite answers (rewrite answers t) = rewrite answers t := by
        rcases Bool.or_eq_true_iff.mp hdone with hsame | hclosed
        · rw [of_decide_eq_true hsame, of_decide_eq_true hsame]
        · exact rewrite_closed hclosed answers
      rw [if_pos hdone, Function.iterate_fixed hfixed, Function.iterate_fixed hfixed]
      simp
    · rw [if_neg hdone, ih]

theorem repeatPass_fixed {t : Text} (ht : rewrite answers t = t) (left : Nat) :
    Placeholder.repeatPass r caller (left + 1) t = pure ⟨t, true⟩ := by
  rw [Placeholder.repeatPass, h.pass, pure_bind, ht, if_pos (by simp)]

theorem resolve_eq (t : Text) (s : σ) :
    r.resolver.resolve caller t s = ⟨.ok ((rewrite answers)^[10] t),
      if (rewrite answers)^[10] t = (rewrite answers)^[9] t || isClosed ((rewrite answers)^[10] t)
        then [] else [unsettled ((rewrite answers)^[10] t)], s⟩ := by
  change Registry.reply r [] caller t s = _
  unfold Registry.reply expand maxPasses applyCustom
  rw [List.foldl_nil, h.repeatPass]
  rfl

theorem resolve (t : Text) (s : σ) : ∃ settled : Bool,
    r.resolver.resolve caller t s = ⟨.ok ((rewrite answers)^[10] t),
      if settled then [] else [unsettled ((rewrite answers)^[10] t)], s⟩ ∧
      (settled = true → rewrite answers ((rewrite answers)^[10] t) =
        (rewrite answers)^[10] t) := by
  refine ⟨_, h.resolve_eq t s, fun hsettled => ?_⟩
  rcases Bool.or_eq_true_iff.mp hsettled with hsame | hclosed
  · have hninth := of_decide_eq_true hsame
    rw [Function.iterate_succ_apply'] at hninth ⊢
    rw [hninth, hninth]
  · exact rewrite_closed hclosed answers

theorem resolve_fixed {t : Text} (ht : rewrite answers t = t) (s : σ) :
    r.resolver.resolve caller t s = ⟨.ok t, [], s⟩ := by
  change Registry.reply r [] caller t s = _
  unfold Registry.reply expand maxPasses applyCustom
  rw [List.foldl_nil, h.repeatPass_fixed ht]
  rfl

end Gives

end Registry

/-- When handlers remember nothing and do not fail, a pass is a function, resolving a text comes to
ten passes, and nothing is said but the warning about a text that did not settle. If it is not said,
another pass would change nothing, and resolving the text again gives it back in silence. -/
theorem resolve_ten_passes {r : Registry κ σ} (hr : r.Plain) (caller : κ) :
    ∃ p : Text → Text, (∀ t, pass r caller t = pure (p t)) ∧ ∀ t s,
      ∃ entries, r.resolver.resolve caller t s = ⟨.ok (p^[10] t), entries, s⟩ ∧
        (entries = [] ∨ entries = [unsettled (p^[10] t)]) ∧
        (entries = [] → p (p^[10] t) = p^[10] t ∧
          ∀ s', r.resolver.resolve caller (p^[10] t) s' = ⟨.ok (p^[10] t), [], s'⟩) := by
  obtain ⟨answers, hanswers⟩ := hr.gives caller
  refine ⟨rewrite answers, hanswers.pass, fun t s => ?_⟩
  obtain ⟨settled, hresolve, hfixed⟩ := hanswers.resolve t s
  refine ⟨_, hresolve, ?_, ?_⟩
  · cases settled with
    | true => exact .inl rfl
    | false => exact .inr rfl
  · intro hsilent
    cases settled with
    | true => exact ⟨hfixed rfl, hanswers.resolve_fixed (hfixed rfl)⟩
    | false => cases hsilent

def relay : Registry Text Unit :=
  [("ask".toList, fun _ raw => pure ('%' :: raw ++ ['%'])),
    ("who".toList, fun caller _ => pure caller),
    ("grow".toList, fun _ raw => pure ("%grow_".toList ++ raw ++ "x%".toList))]

theorem relay_plain : relay.Plain := by
  intro key h hfound
  have hmem := Dictionary.mem_of_find? hfound
  simp only [relay, List.mem_cons, Prod.mk.injEq, List.not_mem_nil, or_false] at hmem
  rcases hmem with ⟨-, rfl⟩ | ⟨-, rfl⟩ | ⟨-, rfl⟩
  all_goals exact ⟨_, fun _ _ => rfl⟩

/-- References that come out of others are replaced until the text rests at `%Ann%`, which nobody
answers for. -/
theorem resolve_relay_ten_passes : relay.Plain ∧ ∃ p : Text → Text,
    (∀ t, pass relay "Ann".toList t = pure (p t)) ∧
      p^[10] "%ask_{ask_who}%".toList = "%Ann%".toList ∧ p "%Ann%".toList = "%Ann%".toList ∧
        relay.resolver.resolve "Ann".toList "%Ann%".toList () = ⟨.ok "%Ann%".toList, [], ()⟩ := by
  obtain ⟨p, hpass, hten⟩ := resolve_ten_passes relay_plain "Ann".toList
  obtain ⟨entries, hresolve, -, hrests⟩ := hten "%ask_{ask_who}%".toList ()
  have hanswer : (relay.resolver.resolve "Ann".toList "%ask_{ask_who}%".toList ()).answer.toOption =
      some "%Ann%".toList := by decide +kernel
  have hsilent : (relay.resolver.resolve "Ann".toList "%ask_{ask_who}%".toList ()).entries =
      [] := by decide +kernel
  rw [hresolve] at hanswer hsilent
  have htext : p^[10] "%ask_{ask_who}%".toList = "%Ann%".toList := Option.some.inj hanswer
  obtain ⟨hfixed, hagain⟩ := hrests hsilent
  rw [htext] at hfixed hagain
  exact ⟨relay_plain, p, hpass, htext, hfixed, hagain ()⟩

end Conditions.Placeholder
