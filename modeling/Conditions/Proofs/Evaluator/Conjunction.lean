import Conditions.Proofs.Evaluator.Transparency
import Conditions.Proofs.Expression.Embedding

/-!
# Lines one by one and as one

Lines in parentheses, joined by "and", are one condition. To evaluate it puts the same questions to
the resolver, in the same order, as to evaluate the lines one after the other, and comes to the same
end: both stop at the first line that does not hold or at which the resolver fails.
-/

set_option autoImplicit false

namespace Conditions.Evaluator
open Expression Journal Placeholder

variable {κ σ : Type}

def allHold {m : Type → Type} [Monad m] (ask : Comparison → m Bool) : List Condition → m Bool
  | [] => pure true
  | c :: cs => do
    if ← c.holds ask then allHold ask cs else pure false

/-- An "and" that is folded to the left goes through its operands from the left. -/
theorem holds_foldl_and {m : Type → Type} [Monad m] [LawfulMonad m] (ask : Comparison → m Bool)
    (c : Condition) (cs : List Condition) :
    (cs.foldl .and c).holds ask = allHold ask (c :: cs) := by
  induction cs generalizing c with
  | nil =>
    have hself : ∀ b : Bool, (if b = true then pure true else pure false : m Bool) = pure b := by
      intro b
      cases b <;> rfl
    simp only [List.foldl_nil, allHold, hself, bind_pure]
  | cons c' cs ih =>
    rw [List.foldl_cons, ih]
    simp only [allHold, Formula.holds, bind_assoc]
    congr 1
    funext b
    cases b <;> simp

structure Session.Peers (x y : Session κ σ) : Prop where
  resolver : y.resolver = x.resolver
  asked : y.asked = x.asked

namespace Evaluation

theorem ask_peers (r : Resolver κ σ) (caller : κ) (operand : Text) :
    Respects Session.Peers (ask r caller operand) := by
  intro x y h
  rw [run_ask, run_ask, h.resolver]
  exact ⟨rfl, rfl, congrArg (· ++ [(caller, operand)]) h.asked⟩

def OnlyRaises {α : Type} (e : Evaluation κ σ α) : Prop :=
  ∀ x failure, (e.run.run x).1 = .error failure → ∃ message, failure = .raised message

theorem OnlyRaises.pure {α : Type} (v : α) : OnlyRaises (Pure.pure v : Evaluation κ σ α) :=
  fun _ _ h => by cases h

theorem OnlyRaises.bind {α β : Type} {e : Evaluation κ σ α} {k : α → Evaluation κ σ β}
    (he : OnlyRaises e) (hk : ∀ v, OnlyRaises (k v)) : OnlyRaises (e >>= k) := by
  intro x failure h
  have hfirst := he x
  rw [run_bind] at h
  cases hrun : e.run.run x with
  | mk answer x' =>
    rw [hrun] at h hfirst
    cases answer with
    | ok v => exact hk v x' failure h
    | error failure' =>
      cases h
      exact hfirst failure rfl

theorem OnlyRaises.ask (r : Resolver κ σ) (caller : κ) (operand : Text) :
    OnlyRaises (ask r caller operand) := by
  intro x failure h
  rw [run_ask] at h
  change (r.resolve caller operand x.resolver).answer.mapError Failure.raised = _ at h
  cases hanswer : (r.resolve caller operand x.resolver).answer with
  | ok t =>
    rw [hanswer] at h
    cases h
  | error message =>
    rw [hanswer] at h
    cases h
    exact ⟨message, rfl⟩

theorem condition_onlyRaises (r : Resolver κ σ) (caller : κ) (c : Condition) :
    OnlyRaises (condition r caller c) :=
  holds_induction .pure (fun _ _ => .bind)
    (fun o => (OnlyRaises.ask r caller o.left).bind fun _ =>
      (OnlyRaises.ask r caller o.right).bind fun _ => .pure _) c

end Evaluation

section
variable (u : Setup κ σ) (caller : Caller κ)

/-- Evaluating a line comes to putting its condition to the resolver. -/
theorem Session.Peers.appraise {x y : Session κ σ} (h : Peers x y) {line : Text} {c : Condition}
    (hparse : parse line = .ok c) :
    Concurs Peers ((Evaluation.condition u.resolver caller.value c).run.run x)
      (y.appraise u caller (some line)) := by
  have hline : parse? (some line) = .ok c := hparse
  have hinside : Peers x { y with context := ⟨some line, caller.label⟩ } :=
    ⟨h.resolver, h.asked⟩
  obtain ⟨answer, x', y', hx, hy, hafter⟩ :=
    (Evaluation.condition_respects (Evaluation.ask_peers u.resolver caller.value) c _ _
      hinside).split
  unfold Session.appraise Evaluation.ofLine
  rw [hline, hx]
  simp only [Evaluation.run_bind, Option.getD_some, hy]
  cases answer with
  | ok result => exact ⟨rfl, hafter.resolver, hafter.asked⟩
  | error failure => exact ⟨rfl, hafter.resolver, hafter.asked⟩

theorem Session.Peers.evaluate {s : State κ σ} (hs : s.cache.Coherent) {x : Session κ σ}
    (h : Peers x s.session) {line : Text} {c : Condition} (hparse : parse line = .ok c) :
    ∃ answer x' s', (Evaluation.condition u.resolver caller.value c).run.run x = (answer, x') ∧
      s.evaluate u caller (some line) = (answer, s') ∧ Peers x' s'.session ∧ s'.cache.Coherent := by
  obtain ⟨cache, hcache, heval⟩ := evaluate_eq_appraise hs u caller (some line)
  obtain ⟨answer, x', y', hx, hy, hafter⟩ :=
    (h.appraise u caller hparse).split
  rw [hy] at heval
  exact ⟨answer, x', _, hx, heval, hafter, hcache⟩

theorem Session.Peers.evaluateAll {lines : List Text} {cs : List Condition}
    (hparse : List.Forall₂ (fun line c => parse line = .ok c) lines cs) {s : State κ σ}
    (hs : s.cache.Coherent) {x : Session κ σ} (h : Peers x s.session) :
    ∃ answer x' s',
      (allHold (Evaluation.comparison u.resolver caller.value) cs).run.run x = (answer, x') ∧
        s.evaluateAll u caller (lines.map some) = (answer, s') ∧ Peers x' s'.session := by
  induction hparse generalizing s x with
  | nil => exact ⟨.ok true, x, s, rfl, rfl, h⟩
  | @cons line c lines cs hline _ ih =>
    obtain ⟨answer, x', s', hrun, heval, hafter, hs'⟩ :=
      h.evaluate u caller hs hline
    have hraised := Evaluation.condition_onlyRaises u.resolver caller.value c x
    rw [hrun] at hraised
    change (c.holds (Evaluation.comparison u.resolver caller.value)).run.run x = _ at hrun
    rw [List.map_cons, allHold, Evaluation.run_bind, hrun]
    unfold State.evaluateAll
    rw [heval]
    cases answer with
    | ok result =>
      cases result with
      | true => exact ih hs' hafter
      | false => exact ⟨_, _, _, rfl, rfl, hafter.resolver, hafter.asked⟩
    | error failure =>
      -- a malformed line would only be false, but this one has been parsed
      obtain ⟨message, rfl⟩ := hraised failure rfl
      exact ⟨_, _, _, rfl, rfl, hafter⟩

end

theorem yields_all {depth : Nat} {lines : List Text} (hdepth : depth ≤ maxDepth)
    (h : ∀ line ∈ lines, (∃ c, parse line = .ok c) ∧ NestsWithin depth line) :
    ∃ cs, List.Forall₂ (fun line c => Yields depth line c ∧ parse line = .ok c) lines cs := by
  induction lines with
  | nil => exact ⟨[], .nil⟩
  | cons line lines ih =>
    obtain ⟨⟨c, hparse⟩, hnests⟩ := h line List.mem_cons_self
    obtain ⟨cs, hcs⟩ := ih fun line' hline => h line' (List.mem_cons_of_mem line hline)
    exact ⟨c :: cs, .cons ⟨hnests.yields hparse hdepth, hparse⟩ hcs⟩

/-- In every run of an evaluator, whatever the resolver does, lines that are conditions give the
same result or failure when they are evaluated one after the other and when they are joined by "and"
into one line; the same questions are asked, and the resolver is left in the same state. -/
theorem lines_concur_with_conjunction (u : Setup κ σ) (state : σ) (steps : List (Step κ))
    (caller : Caller κ) {lines : List Text} (hne : lines ≠ [])
    (hlines : ∀ line ∈ lines, (∃ c, parse line = .ok c) ∧ NestsWithin 49 line) :
    let s := (State.start u state).run u steps
    let apart := s.evaluateAll u caller (lines.map some)
    let joined := s.evaluate u caller (some (conjunction lines))
    joined.1 = apart.1 ∧ Session.Peers apart.2.session joined.2.session := by
  intro s apart joined
  have hs : s.cache.Coherent := (run_truthful u state steps).cache
  obtain ⟨cs, hcs⟩ := yields_all (by decide) hlines
  cases hcs with
  | nil => exact absurd rfl hne
  | @cons line c lines cs hline hrest =>
    have hall : List.Forall₂ (fun line c => Yields 49 line c ∧ parse line = .ok c)
        (line :: lines) (c :: cs) := .cons hline hrest
    have hjoined := parse_conjunction (hall.imp fun _ _ h => h.1) (by decide)
    have hself : Session.Peers s.session s.session := ⟨rfl, rfl⟩
    obtain ⟨answer, x, s', hrun, hapart, hpeers⟩ :=
      hself.evaluateAll u caller (hall.imp fun _ _ h => h.2) hs
    obtain ⟨answer', x', s'', hrun', heval, hpeers', -⟩ :=
      hself.evaluate u caller hs hjoined
    rw [Evaluation.condition, holds_foldl_and, hrun] at hrun'
    cases hrun'
    have hleft : apart = (answer, s') := hapart
    have hright : joined = (answer, s'') := heval
    rw [hleft, hright]
    exact ⟨rfl, hpeers'.resolver.trans hpeers.resolver.symm, hpeers'.asked.trans hpeers.asked.symm⟩

def fragile : Setup Unit Nat where
  resolver := ⟨fun _ t count =>
    ⟨if t = "boom".toList then .error "down" else .ok t, [], count + 1⟩⟩
  worker := .immediate
  dispatch := .immediate
  cacheSize := 1

/-- The second line fails after three questions, on its own as well as in the joined line. -/
theorem fragile_lines_concur :
    let lines := ["(a == a)".toList, "boom > 1".toList]
    let s := (State.start fragile 0).run fragile []
    let apart := s.evaluateAll fragile ⟨(), none⟩ (lines.map some)
    let joined := s.evaluate fragile ⟨(), none⟩ (some (conjunction lines))
    lines ≠ [] ∧ (∀ line ∈ lines, (∃ c, parse line = .ok c) ∧ NestsWithin 49 line) ∧
      conjunction lines = "((a == a)) && (boom > 1)".toList ∧
        joined.1 = apart.1 ∧ Session.Peers apart.2.session joined.2.session ∧
          apart.1.toOption = none ∧ joined.2.session.resolver = 3 := by
  intro lines s apart joined
  have hne : lines ≠ [] := List.cons_ne_nil _ _
  have hgroup : NestsWithin 49 "(a == a)".toList := by
    refine ⟨⟨.leftParen, ['('], 0⟩ :: ([⟨.literal, ['a'], 1⟩, ⟨.operator, ['=', '='], 3⟩,
      ⟨.literal, ['a'], 6⟩] ++ [⟨.rightParen, [')'], 7⟩]),
      ⟨⟨.eof, [], 8⟩, rfl, by decide +kernel⟩, ?_⟩
    exact .disjunct (.conjunct (.group rfl (.disjunct (.conjunct (.comparison rfl rfl rfl))) rfl))
  have hplain : NestsWithin 49 "boom > 1".toList :=
    ⟨[⟨.literal, "boom".toList, 0⟩, ⟨.operator, ['>'], 5⟩, ⟨.literal, ['1'], 7⟩],
      ⟨⟨.eof, [], 8⟩, rfl, by decide +kernel⟩, .disjunct (.conjunct (.comparison rfl rfl rfl))⟩
  have hlines : ∀ line ∈ lines, (∃ c, parse line = .ok c) ∧ NestsWithin 49 line := by
    intro line hline
    simp only [lines, List.mem_cons, List.not_mem_nil, or_false] at hline
    rcases hline with rfl | rfl
    · exact ⟨⟨.atom ⟨['a'], .equal, ['a']⟩, by decide +kernel⟩, hgroup⟩
    · exact ⟨⟨.atom ⟨"boom".toList, .greater, ['1']⟩, by decide +kernel⟩, hplain⟩
  obtain ⟨hsame, hpeers⟩ := lines_concur_with_conjunction fragile 0 [] ⟨(), none⟩ hne hlines
  exact ⟨hne, hlines, by decide, hsame, hpeers, by decide +kernel, by decide +kernel⟩

end Conditions.Evaluator
