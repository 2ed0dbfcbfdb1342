import Conditions.Proofs.Placeholder.Lookup
import Conditions.Proofs.Placeholder.Passes

/-!
# What the warning tells

The warning about a text that did not settle is given when the tenth pass, the last one there is,
has changed the text and left a delimiter in it. What it does not look at is whether one more pass
would change the text again. So a text that comes to rest with the tenth pass is warned of as well,
although it is stable.
-/

set_option autoImplicit false

namespace Conditions.Placeholder

variable {κ σ : Type}

/-- A text comes to rest with the pass of this number: all passes so far change it, and those behind
it do not. -/
def RestsAfter (p : Text → Text) (n : Nat) (t : Text) : Prop := ∀ m, p^[m + 1] t = p^[m] t ↔ n ≤ m

section
variable {p : Text → Text} {t : Text} {n : Nat}

/-- What a pass has left alone, the passes behind it leave alone, too. -/
theorem iterate_rests {m : Nat} (h : p^[n + 1] t = p^[n] t) (hm : n ≤ m) :
    p^[m + 1] t = p^[m] t := by
  obtain ⟨k, rfl⟩ := Nat.exists_eq_add_of_le hm
  have hfixed : p (p^[n] t) = p^[n] t := by rwa [← Function.iterate_succ_apply' p]
  have hstays : p^[n + k] t = p^[n] t := by
    rw [Nat.add_comm, Function.iterate_add_apply, Function.iterate_fixed hfixed]
  rw [Function.iterate_succ_apply', hstays, hfixed]

theorem restsAfter_succ_iff :
    RestsAfter p (n + 1) t ↔ p^[n + 1] t ≠ p^[n] t ∧ p (p^[n + 1] t) = p^[n + 1] t := by
  rw [← Function.iterate_succ_apply' p]
  constructor
  · intro h
    exact ⟨fun hsame => Nat.not_succ_le_self n ((h n).mp hsame), (h (n + 1)).mpr (Nat.le_refl _)⟩
  · rintro ⟨hmoves, hrests⟩ m
    refine ⟨fun hsame => ?_, iterate_rests hrests⟩
    by_contra hlate
    exact hmoves (iterate_rests hsame (by omega))

/-- A text that still moves after some passes has moved in the last of them, and is not closed. -/
theorem moves_iff (hclosed : isClosed (p^[n + 1] t) = true → p (p^[n + 1] t) = p^[n + 1] t) :
    (p^[n + 1] t ≠ p^[n] t ∧ isClosed (p^[n + 1] t) = false) ↔
      p (p^[n + 1] t) ≠ p^[n + 1] t ∨
        RestsAfter p (n + 1) t ∧ isClosed (p^[n + 1] t) = false := by
  rw [restsAfter_succ_iff]
  constructor
  · rintro ⟨hmoved, hopen⟩
    by_cases hrests : p (p^[n + 1] t) = p^[n + 1] t
    · exact .inr ⟨⟨hmoved, hrests⟩, hopen⟩
    · exact .inl hrests
  · rintro (hmoves | ⟨⟨hmoved, -⟩, hopen⟩)
    · refine ⟨fun hsame => hmoves ?_, Bool.eq_false_iff.mpr fun h => hmoves (hclosed h)⟩
      rw [← Function.iterate_succ_apply' p]
      exact iterate_rests hsame (Nat.le_succ n)
    · exact ⟨hmoved, hopen⟩

end

/-- When handlers remember nothing and do not fail, fixed texts for instance, a warning is given of
the text that comes out exactly if another pass would change it, or if it has come to rest with the
tenth pass and has a delimiter. Only in the second case the warning is not right. -/
theorem warned_iff_moves_or_rests_last {r : Registry κ σ} (hr : r.Plain) (caller : κ) :
    ∃ p : Text → Text, (∀ t, pass r caller t = pure (p t)) ∧ ∀ t s,
      ∃ entries, r.resolver.resolve caller t s = ⟨.ok (p^[10] t), entries, s⟩ ∧
        (entries = [] ∨ entries = [unsettled (p^[10] t)]) ∧
        (entries ≠ [] ↔ p (p^[10] t) ≠ p^[10] t ∨
          RestsAfter p 10 t ∧ isClosed (p^[10] t) = false) := by
  obtain ⟨answers, hanswers⟩ := hr.gives caller
  refine ⟨rewrite answers, hanswers.pass, fun t s => ⟨_, hanswers.resolve_eq t s, ?_, ?_⟩⟩
  · split
    · exact .inl rfl
    · exact .inr rfl
  · rw [← moves_iff fun hclosed => rewrite_closed hclosed answers, ite_ne_left_iff]
    simp

def chain (length : Nat) : Registry Unit Unit :=
  Registry.ofList ((List.range length).map fun i => (key i, .fixed (link (i + 1))))
where
  key (i : Nat) : Text := 'k' :: Nat.toDigits 10 i
  link (i : Nat) : Text := brace.verbatim (.reference (key i))

theorem chain_fixed (length : Nat) (key : Text) (h : Handler Unit Unit)
    (hfound : Dictionary.find? (chain length) key = some h) : ∃ t, h = Handler.fixed t := by
  obtain ⟨e, he, rfl⟩ := Registry.exists_of_find?_ofList hfound
  obtain ⟨i, -, rfl⟩ := List.mem_map.mp he
  exact ⟨_, rfl⟩

theorem chain_plain (length : Nat) : (chain length).Plain := by
  intro key h hfound
  obtain ⟨t, rfl⟩ := chain_fixed length key h hfound
  exact ⟨fun _ _ => t, fun _ _ => rfl⟩

/-- Twelve references are too many for ten passes. -/
theorem chain_warned : (chain 12).Plain ∧ ∃ p : Text → Text,
    (∀ t, pass (chain 12) () t = pure (p t)) ∧ p^[10] (chain.link 0) = chain.link 10 ∧
      p (chain.link 10) ≠ chain.link 10 ∧
        ((chain 12).resolver.resolve () (chain.link 0) ()).entries ≠ [] := by
  obtain ⟨p, hpass, hwarned⟩ := warned_iff_moves_or_rests_last (chain_plain 12) ()
  obtain ⟨entries, hresolve, -, hiff⟩ := hwarned (chain.link 0) ()
  have hanswer : ((chain 12).resolver.resolve () (chain.link 0) ()).answer.toOption =
      some (chain.link 10) := by decide +kernel
  rw [hresolve] at hanswer ⊢
  have htext : p^[10] (chain.link 0) = chain.link 10 := Option.some.inj hanswer
  have hmoves : p (chain.link 10) ≠ chain.link 10 := by
    intro hsame
    have hrun := congrArg (fun act => (act.run.run ()).1.toOption) (hpass (chain.link 10))
    rw [hsame] at hrun
    revert hrun
    decide +kernel
  rw [htext] at hiff
  exact ⟨chain_plain 12, p, hpass, htext, hmoves, hiff.mpr (.inl hmoves)⟩

/-- Ten references come to rest with the tenth pass, and are warned of. -/
theorem chain_warned_at_rest :
    (∀ key h, Dictionary.find? (chain 10) key = some h → ∃ t, h = Handler.fixed t) ∧
    ((chain 10).resolver.resolve () (chain.link 0) ()).entries = [unsettled (chain.link 10)] ∧
    ((chain 10).resolver.resolve () (chain.link 0) ()).answer.toOption = some (chain.link 10) ∧
    ((pass (chain 10) () (chain.link 10)).run.run ()).1.toOption = some (chain.link 10) :=
  ⟨chain_fixed 10, by decide +kernel, by decide +kernel, by decide +kernel⟩

end Conditions.Placeholder
