import Conditions.Proofs.Expression.Feed

/-!
# Calls of one parser

A parser that is called again and again carries a count of groups from call to call. A call that
fails inside groups leaves them counted, and nothing takes them off again. The count is all that a
parser remembers, and it shows in one place only: where a new parser would open a group, one whose
count is too high fails instead.
-/

set_option autoImplicit false

namespace Conditions.Expression

inductive Call where
  | condition
  | advance
  | expect (kind : TokenKind) (what : String)
  deriving DecidableEq, Repr

inductive Reply where
  | condition (answer : Except Fault Condition)
  | token (answer : Except Fault Token)

def Reply.fault? : Reply → Option Fault
  | .condition (.error fault) => some fault
  | .token (.error fault) => some fault
  | _ => none

namespace Parser

def perform (p : Parser) : Call → Reply × Parser
  | .condition => (.condition p.condition.1, p.condition.2)
  | .advance => (.token p.advance.1, p.advance.2)
  | .expect kind what => (.token (p.expect kind what).1, (p.expect kind what).2)

def after (p : Parser) (calls : List Call) : Parser :=
  calls.foldl (fun p call => (p.perform call).2) p

def Forgets (p : Parser) (call : Call) : Prop :=
  (p.perform call).1 = ((ofCursor p.cursor).perform call).1 ∧
    (p.perform call).2.cursor = ((ofCursor p.cursor).perform call).2.cursor

end Parser

inductive Comes (count : Nat) : Cursor → State → Cursor → State → Prop where
  | here {c : Cursor} {s : State} : Comes count c s c s
  | on {c c' c'' : Cursor} {s s' s'' : State}
      (shift : s.decision (count + s.outer.length) c.current = .shift s') (next : c.next = .ok c')
      (rest : Comes count c' s' c'' s'') : Comes count c s c'' s''

def State.opens (s : State) (t : Token) : Bool :=
  match s.wanted with
  | .primary => t.kind == .leftParen
  | _ => false

def State.groupsAt (s : State) (t : Token) : Nat := s.outer.length + (s.opens t).toNat

structure Halts (count : Nat) (c : Cursor) (s : State) (c' : Cursor) (s' : State) : Prop where
  comes : Comes count c s c' s'
  halts : ∀ s'' d, s'.decision (count + s'.outer.length) c'.current = .shift s'' → c'.next ≠ .ok d

structure Crowded (count : Nat) (c : Cursor) (s : State) (c' : Cursor) (s' : State) : Prop where
  comes : Comes count c s c' s'
  opens : s'.opens c'.current = true
  room : s'.outer.length < maxDepth
  full : maxDepth ≤ count + s'.outer.length

section
variable {s s' : State} {depth : Nat} {t : Token}

/-- Groups are opened by a token that is shifted, or that is refused because they are too many. -/
theorem State.groupsAt_decision (s : State) (depth : Nat) (t : Token) :
    s.groupsAt t = match s.decision depth t with
      | .shift s' => max s.outer.length s'.outer.length
      | .refuse cause => s.outer.length + if cause = .tooDeep then 1 else 0
      | .reject _ | .accept _ => s.outer.length := by
  obtain ⟨frame, outer, wanted⟩ := s
  unfold groupsAt opens decision
  cases wanted with
  | primary =>
    cases t.kind with
    | leftParen => by_cases h : depth < maxDepth <;> simp [h]
    | _ => simp
  | operator left => cases t.kind <;> cases Comparator.ofSymbol? t.text <;> simp
  | rightOperand left comparator => cases t.kind <;> simp
  | connective read => cases t.kind <;> cases outer <;> simp

/-- The groups around a token decide about one that opens a group. -/
theorem State.decision_of_opens (h : s.opens t = true) :
    s.decision depth t = if depth < maxDepth then .shift ⟨.empty, s.frame :: s.outer, .primary⟩
      else .refuse .tooDeep := by
  obtain ⟨frame, outer, wanted⟩ := s
  unfold opens at h
  unfold decision
  cases wanted with
  | primary =>
    rw [beq_iff_eq] at h
    rw [h]
  | _ => cases h

theorem State.decision_of_not_opens (h : s.opens t = false) (depth' : Nat) :
    s.decision depth t = s.decision depth' t := by
  obtain ⟨frame, outer, wanted⟩ := s
  unfold opens at h
  unfold decision
  cases wanted with
  | primary => cases hk : t.kind <;> simp_all
  | _ => rfl

theorem State.outer_of_accept {condition : Condition} (h : s.decision depth t = .accept condition) :
    s.outer = [] := by
  unfold decision at h
  split at h <;> repeat' split at h
  all_goals cases h
  assumption

end

section
variable {count : Nat} {c c' : Cursor} {s s' : State}

theorem Comes.run_eq (h : Comes count c s c' s') : run count c s = run count c' s' := by
  induction h with
  | here => rfl
  | on shift next rest ih => rw [run_shift shift next, ih]

/-- What is shifted when groups are counted before is shifted without them. -/
theorem Comes.unburdened (h : Comes count c s c' s') : Comes 0 c s c' s' := by
  induction h with
  | here => exact .here
  | @on c c' c'' s s' s'' shift next rest ih =>
    refine .on ?_ next ih
    rw [← shift]
    cases hopens : s.opens c.current with
    | false => exact State.decision_of_not_opens hopens _
    | true =>
      by_cases hroom : count + s.outer.length < maxDepth
      · rw [State.decision_of_opens hopens, State.decision_of_opens hopens, if_pos hroom,
          if_pos (by omega)]
      · rw [State.decision_of_opens hopens, if_neg hroom] at shift
        cases shift

theorem exists_halts (count : Nat) (c : Cursor) (s : State) : ∃ c' s', Halts count c s c' s' := by
  induction c, s using run.induct count with
  | case1 c s _ hd | case2 c s _ hd | case3 c s _ hd | case4 c s _ hd =>
    refine ⟨c, s, .here, fun s'' d hshift => ?_⟩
    rw [hd] at hshift
    cases hshift
  | case5 c s s' hd c' hn ih =>
    obtain ⟨c'', s'', hcomes, hhalts⟩ := ih
    exact ⟨c'', s'', .on hd hn hcomes, hhalts⟩
  | case6 c s s' hd fault hn =>
    refine ⟨c, s, .here, fun s'' d _ hnext => ?_⟩
    rw [hn] at hnext
    cases hnext

/-- A run counts the groups around the token at which it halts. -/
theorem Halts.groups (h : Halts count c s c' s') :
    (run count c s).groups = count + s'.groupsAt c'.current := by
  rw [h.comes.run_eq, s'.groupsAt_decision (count + s'.outer.length) c'.current]
  cases hd : s'.decision (count + s'.outer.length) c'.current with
  | shift s'' =>
    cases hn : c'.next with
    | ok d => exact absurd hn (h.halts s'' d hd)
    | error fault => rw [run_shift_stuck hd hn]
  | reject cause =>
    rw [run_reject hd]
    cases c'.next <;> rfl
  | refuse cause => rw [run_refuse hd, Nat.add_assoc]
  | accept condition => rw [run_accept hd]

/-- A condition that is read to its end leaves no group open. -/
theorem run_groups_of_ok {condition : Condition} (h : (run count c s).answer = .ok condition) :
    (run count c s).groups = count := by
  induction c, s using run.induct count with
  | case1 c s condition hd =>
    rw [run_accept hd, State.outer_of_accept hd]
    rfl
  | case2 c s cause hd =>
    rw [run_refuse hd] at h
    cases h
  | case3 c s cause hd c' hn | case4 c s cause hd fault hn =>
    rw [run_reject hd, hn] at h
    cases h
  | case5 c s s' hd c' hn ih =>
    rw [run_shift hd hn] at h ⊢
    exact ih h
  | case6 c s s' hd fault hn =>
    rw [run_shift_stuck hd hn] at h
    cases h

theorem State.decision_of_not_crowded (h : ¬ ∃ c' s', Crowded count c s c' s') :
    s.decision (0 + s.outer.length) c.current = s.decision (count + s.outer.length) c.current := by
  cases hopens : s.opens c.current with
  | false => exact State.decision_of_not_opens hopens _
  | true =>
    have hcrowded : ¬ (s.outer.length < maxDepth ∧ maxDepth ≤ count + s.outer.length) := by
      rintro ⟨hroom, hfull⟩
      exact h ⟨c, s, .here, hopens, hroom, hfull⟩
    rw [State.decision_of_opens hopens, State.decision_of_opens hopens]
    by_cases hroom : s.outer.length < maxDepth
    · rw [if_pos (by omega), if_pos (by omega)]
    · rw [if_neg (by omega), if_neg (by omega)]

theorem run_eq_of_not_crowded (h : ¬ ∃ c' s', Crowded count c s c' s') :
    (run count c s).answer = (run 0 c s).answer ∧
      (run count c s).cursor = (run 0 c s).cursor := by
  have hsame := State.decision_of_not_crowded h
  induction c, s using run.induct count with
  | case1 c s condition hd =>
    rw [run_accept hd, run_accept (hsame.trans hd)]
    exact ⟨rfl, rfl⟩
  | case2 c s cause hd =>
    rw [run_refuse hd, run_refuse (hsame.trans hd)]
    exact ⟨rfl, rfl⟩
  | case3 c s cause hd c' hn | case4 c s cause hd fault hn =>
    rw [run_reject hd, run_reject (hsame.trans hd), hn]
    exact ⟨rfl, rfl⟩
  | case5 c s s' hd c' hn ih =>
    rw [run_shift hd hn, run_shift (hsame.trans hd) hn]
    have hrest : ¬ ∃ d s'', Crowded count c' s' d s'' := by
      rintro ⟨d, s'', hcrowded⟩
      exact h ⟨d, s'', { hcrowded with comes := .on hd hn hcrowded.comes }⟩
    exact ih hrest (State.decision_of_not_crowded hrest)
  | case6 c s s' hd fault hn =>
    rw [run_shift_stuck hd hn, run_shift_stuck (hsame.trans hd) hn]
    exact ⟨rfl, rfl⟩

theorem Crowded.run_eq (h : Crowded count c s c' s') :
    run count c s = ⟨.error (c'.current.fault c'.source .tooDeep), c',
      count + s'.outer.length + 1⟩ := by
  have hfull : ¬ count + s'.outer.length < maxDepth := Nat.not_lt.mpr h.full
  rw [h.comes.run_eq]
  apply run_refuse
  rw [State.decision_of_opens h.opens, if_neg hfull]

theorem Cursor.remaining_next_le (h : c.next = .ok c') : c'.remaining ≤ c.remaining := by
  cases hc : c.atEnd with
  | true =>
    simp only [next, hc, if_true, Except.ok.injEq] at h
    exact h ▸ Nat.le_refl _
  | false => exact Nat.le_of_lt (remaining_next hc h)

theorem run_remaining (count : Nat) (c : Cursor) (s : State) :
    (run count c s).cursor.remaining ≤ c.remaining := by
  induction c, s using run.induct count with
  | case1 c s condition hd => exact run_accept hd ▸ Nat.le_refl _
  | case2 c s cause hd => exact run_refuse hd ▸ Nat.le_refl _
  | case3 c s cause hd c' hn =>
    rw [run_reject hd, hn]
    exact Cursor.remaining_next_le hn
  | case4 c s cause hd fault hn =>
    have hrun := run_reject hd
    rw [hn] at hrun
    exact hrun ▸ Nat.le_refl _
  | case5 c s s' hd c' hn ih =>
    rw [run_shift hd hn]
    exact Nat.le_trans ih (Cursor.remaining_next_le hn)
  | case6 c s s' hd fault hn => exact run_shift_stuck hd hn ▸ Nat.le_refl _

theorem Cursor.lexical_of_next {fault : Fault} (h : c.next = .error fault) :
    fault.isLexical = true := by
  unfold next scanAt at h
  split at h
  · cases h
  · split at h
    · cases h
    · cases h
      rfl

/-- A new parser goes behind a parenthesis for which another one has no room, or fails at a quote
that is not closed. -/
theorem Crowded.run_ne (h : Crowded count c s c' s') :
    (run 0 c s).answer ≠ (run count c s).answer ∨
      (run 0 c s).cursor ≠ (run count c s).cursor := by
  rw [h.run_eq, h.comes.unburdened.run_eq]
  have hd : s'.decision (0 + s'.outer.length) c'.current =
      .shift ⟨.empty, s'.frame :: s'.outer, .primary⟩ := by
    rw [Nat.zero_add, State.decision_of_opens h.opens, if_pos h.room]
  cases hn : c'.next with
  | ok d =>
    right
    intro heq
    have hle := run_remaining 0 d ⟨.empty, s'.frame :: s'.outer, .primary⟩
    have hlt := Cursor.remaining_next (State.going_of_shift hd) hn
    rw [← run_shift hd hn, heq] at hle
    exact absurd hlt (Nat.not_lt.mpr hle)
  | error fault =>
    left
    intro heq
    have hlexical := Cursor.lexical_of_next hn
    rw [run_shift_stuck hd hn, Except.error.injEq] at heq
    rw [heq] at hlexical
    cases hlexical

end

inductive Counted : Parser → List Call → Nat → Prop where
  | none {p : Parser} : Counted p [] 0
  | read {p : Parser} {c : Cursor} {s : State} {calls : List Call} {n : Nat}
      (halts : Halts p.depth p.cursor .initial c s)
      (rest : Counted (p.perform .condition).2 calls n) :
      Counted p (.condition :: calls) (s.groupsAt c.current + n)
  | other {p : Parser} {call : Call} {calls : List Call} {n : Nat} (other : call ≠ .condition)
      (rest : Counted (p.perform call).2 calls n) : Counted p (call :: calls) n

theorem Parser.perform_expect_of_eq {p : Parser} {kind : TokenKind} {what : String}
    (h : p.cursor.current.kind = kind) :
    p.perform (.expect kind what) = p.perform .advance := by
  simp only [perform, expect, h, if_true]

theorem Parser.perform_expect_of_ne {p : Parser} {kind : TokenKind} {what : String}
    (h : p.cursor.current.kind ≠ kind) : p.perform (.expect kind what) =
      (.token (.error (p.cursor.current.fault p.cursor.source
        (.expected what p.cursor.current.found))), p) := by
  simp only [perform, expect, h, if_false]

theorem Parser.advance_depth (p : Parser) : p.advance.2.depth = p.depth := by
  unfold advance
  split <;> rfl

theorem Parser.perform_depth {p : Parser} {call : Call} (h : call ≠ .condition) :
    (p.perform call).2.depth = p.depth := by
  cases call with
  | condition => exact absurd rfl h
  | advance => exact p.advance_depth
  | expect kind what =>
    by_cases hkind : p.cursor.current.kind = kind
    · rw [perform_expect_of_eq hkind]
      exact p.advance_depth
    · rw [perform_expect_of_ne hkind]

theorem Counted.depth {p : Parser} {calls : List Call} {n : Nat} (h : Counted p calls n) :
    (p.after calls).depth = p.depth + n := by
  induction h with
  | none => rfl
  | @read p c s calls n halts rest ih =>
    have hgroups : (p.perform .condition).2.depth = p.depth + s.groupsAt c.current := halts.groups
    rw [hgroups, Nat.add_assoc] at ih
    exact ih
  | @other p call calls n other rest ih =>
    rw [Parser.perform_depth other] at ih
    exact ih

theorem exists_counted (p : Parser) (calls : List Call) : ∃ n, Counted p calls n := by
  induction calls generalizing p with
  | nil => exact ⟨0, .none⟩
  | cons call calls ih =>
    obtain ⟨n, hrest⟩ := ih (p.perform call).2
    by_cases hcall : call = .condition
    · subst hcall
      obtain ⟨c, s, hhalts⟩ := exists_halts p.depth p.cursor .initial
      exact ⟨_, .read hhalts hrest⟩
    · exact ⟨n, .other hcall hrest⟩

theorem counted_iff (c : Cursor) (calls : List Call) (n : Nat) :
    Counted (.ofCursor c) calls n ↔ ((Parser.ofCursor c).after calls).depth = n := by
  constructor
  · intro h
    rw [h.depth]
    exact Nat.zero_add n
  · intro h
    obtain ⟨m, hm⟩ := exists_counted (.ofCursor c) calls
    have hdepth := hm.depth
    rw [h, Parser.ofCursor, Nat.zero_add] at hdepth
    exact hdepth ▸ hm

theorem Parser.depth_of_answered {p : Parser} {call : Call}
    (h : (p.perform call).1.fault? = none) : (p.perform call).2.depth = p.depth := by
  cases call with
  | condition =>
    cases ha : p.condition.1 with
    | ok condition => exact run_groups_of_ok ha
    | error fault =>
      simp only [perform, ha, Reply.fault?] at h
      cases h
  | _ => exact perform_depth (by simp)

theorem Parser.forgets_advance (p : Parser) : p.Forgets .advance := by
  simp only [Forgets, perform, advance, ofCursor]
  cases p.cursor.next <;> exact ⟨rfl, rfl⟩

theorem Parser.forgets_expect (p : Parser) (kind : TokenKind) (what : String) :
    p.Forgets (.expect kind what) := by
  unfold Forgets
  by_cases h : p.cursor.current.kind = kind
  · rw [perform_expect_of_eq h, perform_expect_of_eq (p := ofCursor p.cursor) h]
    exact p.forgets_advance
  · rw [perform_expect_of_ne h, perform_expect_of_ne (p := ofCursor p.cursor) h]
    exact ⟨rfl, rfl⟩

/-- Only a condition is affected by the groups that a parser has counted before. -/
theorem Parser.forgets_iff (p : Parser) (call : Call) : p.Forgets call ↔
    ¬ (call = .condition ∧ ∃ d s, Crowded p.depth p.cursor .initial d s) := by
  cases call with
  | condition =>
    constructor
    · rintro ⟨hanswer, hcursor⟩ ⟨-, d, s, hcrowded⟩
      simp only [perform, Reply.condition.injEq] at hanswer
      rcases hcrowded.run_ne with h | h
      · exact h hanswer.symm
      · exact h hcursor.symm
    · intro h
      have hsame := run_eq_of_not_crowded fun hcrowded => h ⟨rfl, hcrowded⟩
      exact ⟨congrArg Reply.condition hsame.1, hsame.2⟩
  | advance => exact iff_of_true p.forgets_advance (by simp)
  | expect kind what => exact iff_of_true (p.forgets_expect kind what) (by simp)

/-- A parser that is called again answers as a new one at the same place and ends at the same
place, unless it reads a condition and comes to a parenthesis for which a new parser has room and
the groups counted so far leave none. There it fails. Counted so far are the groups around the
tokens at which earlier conditions came to a halt, and calls that are answered add none. -/
theorem call_differs_iff_crowded (c : Cursor) (calls : List Call) (call : Call) :
    let p := (Parser.ofCursor c).after calls
    (p.Forgets call ↔ ¬ (call = .condition ∧ ∃ d s, Crowded p.depth p.cursor .initial d s)) ∧
    (∀ d s, Crowded p.depth p.cursor .initial d s → p.perform .condition =
      (.condition (.error (d.current.fault d.source .tooDeep)),
        ⟨d, p.depth + s.outer.length + 1⟩)) ∧
    (∀ n, Counted (.ofCursor c) calls n ↔ p.depth = n) ∧
    ((p.perform call).1.fault? = none → (p.perform call).2.depth = p.depth) := by
  intro p
  refine ⟨p.forgets_iff call, ?_, counted_iff c calls, Parser.depth_of_answered⟩
  intro d s hcrowded
  simp only [Parser.perform, Parser.condition, hcrowded.run_eq]

/-- At the last of 51 parentheses a new parser reads `(a == b)`. The one that has come from the first
to the last fails there again. -/
theorem call_remembers_failure :
    let source : Text := List.replicate 51 '(' ++ ['a', ' ', '=', '=', ' ', 'b', ')']
    let c : Cursor := ⟨source, ⟨.leftParen, ['('], 0⟩, source.drop 1⟩
    let p := (Parser.ofCursor c).after [.condition]
    Cursor.start source = .ok c ∧ p.cursor.current = ⟨.leftParen, ['('], 50⟩ ∧
      (p.perform .condition).1.fault? = some ⟨.tooDeep, source, 50, ['(']⟩ ∧
      (p.perform .condition).2.cursor.current = ⟨.leftParen, ['('], 50⟩ ∧
      (Parser.ofCursor p.cursor).condition.1.toOption = some (.atom ⟨['a'], .equal, ['b']⟩) ∧
      (Parser.ofCursor p.cursor).condition.2.cursor.current = ⟨.eof, [], 58⟩ := by
  intro source c p
  refine ⟨rfl, ?_, ?_, ?_, ?_, ?_⟩ <;> decide +kernel

end Conditions.Expression
