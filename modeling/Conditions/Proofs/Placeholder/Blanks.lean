import Conditions.Proofs.Placeholder.Passes

/-!
# Blanks between references

No reference has a blank in it, so a text is cut at its blanks as well. What stands on the two sides
of a blank is therefore rewritten on its own in every pass, whatever the handlers answer.
-/

set_option autoImplicit false

namespace Conditions.Placeholder

variable {κ σ : Type}

structure Style.Blankless (s : Style) : Prop where
  opening : Text.isBlank s.opening = false
  closing : Text.isBlank s.closing = false
  allows : ∀ c, Text.isBlank c = true → s.allows c = false

theorem brace_blankless : brace.Blankless where
  opening := by decide
  closing := by decide
  allows c hc := by simp [brace, hc]

theorem percent_blankless : percent.Blankless where
  opening := by decide
  closing := by decide
  allows c hc := by simp [percent, hc]

namespace Style.Blankless

variable {s : Style} (hs : s.Blankless) {b : Char} (hb : Text.isBlank b = true)
include hs hb

/-- A name is over in front of a blank, and so is the search for its closing delimiter. -/
theorem name?_append (t u : Text) :
    s.name? (t ++ b :: u) = (s.name? t).map fun (name, after) => (name, after ++ b :: u) := by
  have hstop : s.allows b = false := hs.allows b hb
  have hclosing : b ≠ s.closing := by
    rintro rfl
    rw [hs.closing] at hb
    cases hb
  have htake : (t ++ b :: u).takeWhile s.allows = t.takeWhile s.allows := by
    induction t with
    | nil => simp [hstop]
    | cons c t ih => simp only [List.cons_append, List.takeWhile_cons, ih]
  unfold name?
  rw [htake, List.dropWhile_append]
  cases hdrop : t.dropWhile s.allows with
  | nil => simp [hstop, hclosing]
  | cons c rest =>
    simp only [List.isEmpty_cons, Bool.false_eq_true, if_false, List.cons_append]
    split <;> rfl

theorem cut_append (t u : Text) : s.cut (t ++ b :: u) = s.cut t ++ .plain b :: s.cut u := by
  have hopening : b ≠ s.opening := by
    rintro rfl
    rw [hs.opening] at hb
    cases hb
  -- `t` is cut piece by piece, and no piece reaches over the blank
  fun_induction s.cut t with
  | case1 => exact cut_plain fun hopen => absurd hopen hopening
  | case2 rest name after hname ih =>
    have hlonger : s.name? (rest ++ b :: u) = some (name, after ++ b :: u) := by
      rw [hs.name?_append hb, hname]
      rfl
    rw [List.cons_append, cut_reference hlonger, ih]
    rfl
  | case3 rest hname ih =>
    have hlonger : s.name? (rest ++ b :: u) = none := by
      rw [hs.name?_append hb, hname]
      rfl
    rw [List.cons_append, cut_plain fun _ => hlonger, ih]
    rfl
  | case4 c rest hc ih =>
    rw [List.cons_append, cut_plain fun hopen => absurd hopen hc, ih]
    rfl

theorem fill_append (answers : Text → Option Text) (t u : Text) :
    s.fill answers (t ++ b :: u) = s.fill answers t ++ b :: s.fill answers u := by
  rw [fill, hs.cut_append hb, List.flatMap_append, List.flatMap_cons]
  rfl

end Style.Blankless

section
variable (answers : Text → Option Text)

theorem rewrite_append {b : Char} (hb : Text.isBlank b = true) (t u : Text) :
    rewrite answers (t ++ b :: u) = rewrite answers t ++ b :: rewrite answers u := by
  rw [rewrite, brace_blankless.fill_append hb, percent_blankless.fill_append hb]
  rfl

theorem rewrite_blanks (t u : Text) {w : Text} (hw : w ≠ [])
    (hblank : ∀ c ∈ w, Text.isBlank c = true) :
    rewrite answers (t ++ w ++ u) = rewrite answers t ++ w ++ rewrite answers u := by
  induction w generalizing t with
  | nil => exact absurd rfl hw
  | cons b w ih =>
    have hb := hblank b List.mem_cons_self
    cases w with
    | nil => simpa using rewrite_append answers hb t u
    | cons b' w =>
      have hrest := ih (t ++ [b]) (List.cons_ne_nil b' w)
        fun c hc => hblank c (List.mem_cons_of_mem b hc)
      have hfront : rewrite answers (t ++ [b]) = rewrite answers t ++ [b] := by
        have hnil : rewrite answers [] = [] := rewrite_closed rfl answers
        rw [rewrite_append answers hb, hnil]
      rw [hfront] at hrest
      simpa using hrest

theorem iterate_rewrite_blanks (n : Nat) (t u : Text) {w : Text} (hw : w ≠ [])
    (hblank : ∀ c ∈ w, Text.isBlank c = true) :
    (rewrite answers)^[n] (t ++ w ++ u) =
      (rewrite answers)^[n] t ++ w ++ (rewrite answers)^[n] u := by
  induction n generalizing t u with
  | zero => rfl
  | succ n ih =>
    rw [Function.iterate_succ_apply, rewrite_blanks answers t u hw hblank, ih]
    rfl

end

/-- When handlers remember nothing and do not fail, resolving is a function, and it goes through a
text blank by blank: what is on one side of blanks has no effect on the other side, even if one of
the sides does not settle. -/
theorem resolve_splits_at_blanks {r : Registry κ σ} (hr : r.Plain) (caller : κ) :
    ∃ f : Text → Text, (∀ t s, (r.resolver.resolve caller t s).answer = .ok (f t)) ∧
      ∀ t w u, w ≠ [] → (∀ c ∈ w, Text.isBlank c = true) →
        f (t ++ w ++ u) = f t ++ w ++ f u := by
  obtain ⟨answers, hanswers⟩ := hr.gives caller
  refine ⟨(rewrite answers)^[10], fun t s => ?_, fun t w u hw hblank => ?_⟩
  · obtain ⟨settled, hresolve, -⟩ := hanswers.resolve t s
    rw [hresolve]
  · exact iterate_rewrite_blanks answers 10 t u hw hblank

/-- In front of the blanks stands what never settles, behind them a reference and a delimiter. -/
theorem resolve_relay_splits : relay.Plain ∧ ∃ f : Text → Text,
    (∀ t s, (relay.resolver.resolve "Ann".toList t s).answer = .ok (f t)) ∧
      f "%grow%".toList = "%grow_xxxxxxxxxx%".toList ∧ f "{who}%".toList = "Ann%".toList ∧
        f "%grow% \t{who}%".toList = "%grow_xxxxxxxxxx% \tAnn%".toList := by
  obtain ⟨f, hanswer, hsplit⟩ := resolve_splits_at_blanks relay_plain "Ann".toList
  have hresolve : ∀ t u, (relay.resolver.resolve "Ann".toList t ()).answer.toOption = some u →
      f t = u := by
    intro t u h
    rw [hanswer] at h
    exact Option.some.inj h
  have hfront := hresolve "%grow%".toList "%grow_xxxxxxxxxx%".toList (by decide +kernel)
  have hback := hresolve "{who}%".toList "Ann%".toList (by decide +kernel)
  have hblank : ∀ c ∈ " \t".toList, Text.isBlank c = true := List.all_eq_true.mp (by decide)
  have hjoined := hsplit "%grow%".toList " \t".toList "{who}%".toList (by decide) hblank
  rw [hfront, hback] at hjoined
  exact ⟨relay_plain, f, hanswer, hfront, hback, hjoined⟩

end Conditions.Placeholder
