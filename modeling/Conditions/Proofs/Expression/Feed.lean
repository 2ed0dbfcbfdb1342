import Conditions.Expression.Parser

/-!
# Feeding tokens to a parser

A cursor is worth the tokens from the current one to the end, and what a parser does depends on
these tokens alone. `State.feed` gives a state a row of tokens as long as it shifts them; a run of
the parser on a cursor is a feed up to the token at which the run ends.
-/

set_option autoImplicit false

namespace Conditions.Expression

namespace Cursor

theorem tokens_atEnd {c : Cursor} (hc : c.atEnd = true) : c.tokens = .ok [c.current] := by
  rw [tokens]
  simp [hc]

theorem tokens_next {c c' : Cursor} (hc : c.atEnd = false) (hn : c.next = .ok c') :
    c.tokens = c'.tokens.map (c.current :: ·) := by
  rw [tokens]
  simp only [hc, Bool.false_eq_true, dif_neg, not_false_eq_true]
  split
  · rename_i c'' h
    rw [hn, Except.ok.injEq] at h
    rw [h]
  · rename_i h
    rw [hn] at h
    cases h

theorem tokens_stuck {c : Cursor} {fault : Fault} (hc : c.atEnd = false)
    (hn : c.next = .error fault) : c.tokens = .error fault := by
  rw [tokens]
  simp only [hc, Bool.false_eq_true, dif_neg, not_false_eq_true]
  split
  · rename_i c' h
    rw [hn] at h
    cases h
  · rename_i h
    rw [hn, Except.error.injEq] at h
    rw [h]

/-- The first token of a cursor is its current one, and the others are those of the next cursor. -/
theorem tokens_cons {c : Cursor} {t : Token} {ts : List Token} (h : c.tokens = .ok (t :: ts)) :
    c.current = t ∧ (c.atEnd = true ∧ ts = [] ∨
      c.atEnd = false ∧ ∃ c', c.next = .ok c' ∧ c'.tokens = .ok ts) := by
  cases hc : c.atEnd with
  | true =>
    rw [tokens_atEnd hc] at h
    simp only [Except.ok.injEq, List.cons.injEq] at h
    exact ⟨h.1, .inl ⟨rfl, h.2.symm⟩⟩
  | false =>
    cases hn : c.next with
    | error fault =>
      rw [tokens_stuck hc hn] at h
      cases h
    | ok c' =>
      rw [tokens_next hc hn] at h
      cases ht : c'.tokens with
      | error fault => simp [ht, Except.map] at h
      | ok us =>
        simp only [ht, Except.map, Except.ok.injEq, List.cons.injEq] at h
        exact ⟨h.1, .inr ⟨rfl, c', rfl, by rw [ht, h.2]⟩⟩

end Cursor

def State.feed (depth : Nat) (s : State) : List Token → Option State
  | [] => some s
  | t :: ts =>
    match s.decision (depth + s.outer.length) t with
    | .shift s' => s'.feed depth ts
    | _ => none

theorem State.feed_append {depth : Nat} {s s' : State} {ts us : List Token}
    (h : s.feed depth ts = some s') : s.feed depth (ts ++ us) = s'.feed depth us := by
  induction ts generalizing s with
  | nil =>
    simp only [feed, Option.some.injEq] at h
    rw [List.nil_append, h]
  | cons t ts ih =>
    simp only [List.cons_append, feed] at h ⊢
    split at h
    · exact ih h
    · cases h

theorem State.going_of_shift {depth : Nat} {c : Cursor} {s s' : State}
    (hd : s.decision depth c.current = .shift s') : c.atEnd = false := by
  cases hc : c.atEnd with
  | false => rfl
  | true => exact absurd hd (State.decision_eof (by simpa [Cursor.atEnd] using hc))

theorem run_shift {depth : Nat} {c c' : Cursor} {s s' : State}
    (hd : s.decision (depth + s.outer.length) c.current = .shift s') (hn : c.next = .ok c') :
    run depth c s = run depth c' s' := by
  rw [run]
  split <;> rename_i h <;> rw [hd] at h <;> cases h
  split <;> rename_i h <;> rw [hn] at h <;> cases h
  rfl

theorem run_accept {depth : Nat} {c : Cursor} {s : State} {condition : Condition}
    (hd : s.decision (depth + s.outer.length) c.current = .accept condition) :
    run depth c s = ⟨.ok condition, c, depth + s.outer.length⟩ := by
  rw [run]
  split <;> rename_i h <;> rw [hd] at h <;> cases h
  rfl

theorem run_refuse {depth : Nat} {c : Cursor} {s : State} {cause : Cause}
    (hd : s.decision (depth + s.outer.length) c.current = .refuse cause) :
    run depth c s = ⟨.error (c.current.fault c.source cause), c,
      depth + s.outer.length + if cause = .tooDeep then 1 else 0⟩ := by
  rw [run]
  split <;> rename_i h <;> rw [hd] at h <;> cases h
  rfl

/-- A rejected token is passed first, so a fault behind it wins. -/
theorem run_reject {depth : Nat} {c : Cursor} {s : State} {cause : Cause}
    (hd : s.decision (depth + s.outer.length) c.current = .reject cause) :
    run depth c s = match c.next with
      | .ok c' => ⟨.error (c.current.fault c.source cause), c', depth + s.outer.length⟩
      | .error fault => ⟨.error fault, c, depth + s.outer.length⟩ := by
  rw [run]
  split <;> rename_i h <;> rw [hd] at h <;> cases h
  rfl

theorem run_shift_stuck {depth : Nat} {c : Cursor} {s s' : State} {fault : Fault}
    (hd : s.decision (depth + s.outer.length) c.current = .shift s') (hn : c.next = .error fault) :
    run depth c s =
      ⟨.error fault, c, depth + max s.outer.length s'.outer.length⟩ := by
  rw [run]
  split <;> rename_i h <;> rw [hd] at h <;> cases h
  split <;> rename_i h <;> rw [hn] at h <;> cases h
  rfl

/-- A run goes through the tokens that are shifted, whatever comes behind them. -/
theorem run_of_feed {depth : Nat} {c : Cursor} {s s' : State} {ts us : List Token}
    (hc : c.tokens = .ok (ts ++ us)) (hus : us ≠ []) (hf : s.feed depth ts = some s') :
    ∃ c', c'.tokens = .ok us ∧ run depth c s = run depth c' s' := by
  induction ts generalizing c s with
  | nil =>
    simp only [State.feed, Option.some.injEq] at hf
    exact ⟨c, hc, by rw [hf]⟩
  | cons t ts ih =>
    obtain ⟨rfl, ⟨-, hnil⟩ | ⟨-, c', hn, hc'⟩⟩ := Cursor.tokens_cons hc
    · exact absurd (List.append_eq_nil_iff.mp hnil).2 hus
    · simp only [State.feed] at hf
      split at hf
      · rename_i s'' hd
        obtain ⟨c'', ht, hr⟩ := ih hc' hf
        exact ⟨c'', ht, by rw [run_shift hd hn, hr]⟩
      · cases hf

/-- A run that ends well has shifted the tokens up to one at which the condition ends. -/
theorem feed_of_run {depth : Nat} {c : Cursor} {s : State} {condition : Condition}
    (h : (run depth c s).answer = .ok condition) :
    ∃ ts s', s.feed depth ts = some s' ∧
      s'.decision (depth + s'.outer.length) (run depth c s).cursor.current = .accept condition ∧
      ∀ us, (run depth c s).cursor.tokens = .ok us → c.tokens = .ok (ts ++ us) := by
  induction c, s using run.induct depth with
  | case1 c s condition' hd =>
    rw [run_accept hd] at h ⊢
    simp only [Except.ok.injEq] at h
    exact ⟨[], s, rfl, h ▸ hd, fun us hu => hu⟩
  | case2 c s cause hd =>
    rw [run_refuse hd] at h
    cases h
  | case3 c s cause hd c' hn | case4 c s cause hd fault hn =>
    rw [run_reject hd, hn] at h
    cases h
  | case5 c s s' hd c' hn ih =>
    rw [run_shift hd hn] at h ⊢
    obtain ⟨ts, s'', hf, ha, ht⟩ := ih h
    have hc := State.going_of_shift hd
    refine ⟨c.current :: ts, s'', by simp only [State.feed, hd, hf], ha, fun us hu => ?_⟩
    rw [Cursor.tokens_next hc hn, ht us hu]
    rfl
  | case6 c s s' hd fault hn =>
    rw [run_shift_stuck hd hn] at h
    cases h

end Conditions.Expression
