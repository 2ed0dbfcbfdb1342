import Conditions.Proofs.Expression.Recognition

/-!
# Chains of one connective

A row of operands between connectives of one kind can be grouped in many ways. Merged, all these
groupings become one clause with as many operands, which asks the same of its atoms. The tokens that
spell a clause may group its chains in any way.
-/

set_option autoImplicit false

namespace Conditions.Expression

namespace Formula

variable {α : Type}

def join : Bool → Formula α → Formula α → Formula α
  | true, l, r => .and l r
  | false, l, r => .or l r

@[elab_as_elim]
theorem join_induction {motive : Formula α → Prop} (f : Formula α)
    (atom : ∀ a, motive (.atom a))
    (join : ∀ go l r, motive l → motive r → motive (join go l r)) : motive f := by
  induction f with
  | atom a => exact atom a
  | and l r ihl ihr => exact join true l r ihl ihr
  | or l r ihl ihr => exact join false l r ihl ihr

theorem holds_join {m : Type → Type} [Monad m] [LawfulMonad m] (ask : α → m Bool) (go : Bool)
    (l r : Formula α) :
    (join go l r).holds ask =
      l.holds ask >>= fun b => if b = go then r.holds ask else pure b := by
  cases go with
  | true =>
    refine congrArg (l.holds ask >>= ·) (funext fun b => ?_)
    cases b <;> rfl
  | false =>
    refine congrArg (l.holds ask >>= ·) (funext fun b => ?_)
    cases b <;> rfl

end Formula

inductive Clause (α : Type) where
  | atom (a : α)
  | joined (go : Bool) (operands : List (Clause α))

namespace Clause

variable {α : Type}

def operands (go : Bool) : Clause α → List (Clause α)
  | .atom a => [.atom a]
  | .joined go' cs => if go' = go then cs else [.joined go' cs]

section
variable {m : Type → Type} [Monad m] (ask : α → m Bool)

mutual

def holds : Clause α → m Bool
  | .atom a => ask a
  | .joined go cs => goesOn go cs

def goesOn (go : Bool) : List (Clause α) → m Bool
  | [] => pure go
  | c :: cs => do
    let b ← holds c
    if b = go then goesOn go cs else pure b

end

variable [LawfulMonad m] (go : Bool)

theorem goesOn_append (cs ds : List (Clause α)) :
    goesOn ask go (cs ++ ds) =
      goesOn ask go cs >>= fun b => if b = go then goesOn ask go ds else pure b := by
  induction cs with
  | nil => simp [goesOn]
  | cons c cs ih =>
    simp only [List.cons_append, goesOn, ih, bind_assoc]
    refine congrArg (holds ask c >>= ·) (funext fun b => ?_)
    split
    · rfl
    · rename_i hb
      rw [pure_bind, if_neg hb]

theorem goesOn_operands (c : Clause α) : goesOn ask go (c.operands go) = c.holds ask := by
  have hself : ∀ c : Clause α, goesOn ask go [c] = c.holds ask := by
    intro c
    have hend : ∀ b : Bool, (if b = go then goesOn ask go [] else pure b) = (pure b : m Bool) := by
      intro b
      split
      · rename_i hb
        rw [hb, goesOn]
      · rfl
    simp only [goesOn] at hend ⊢
    simp only [hend, bind_pure]
  cases c with
  | atom a => exact hself _
  | joined go' cs =>
    rw [operands]
    split
    · rename_i hgo
      rw [hgo, holds]
    · exact hself _

end

end Clause

namespace Formula

variable {α : Type}

def merged : Formula α → Clause α
  | .atom a => .atom a
  | .and l r => .joined true (l.merged.operands true ++ r.merged.operands true)
  | .or l r => .joined false (l.merged.operands false ++ r.merged.operands false)

theorem merged_join (go : Bool) (l r : Formula α) :
    (join go l r).merged = .joined go (l.merged.operands go ++ r.merged.operands go) := by
  cases go <;> rfl

theorem operands_join (go : Bool) (l r : Formula α) :
    (join go l r).merged.operands go = l.merged.operands go ++ r.merged.operands go := by
  rw [merged_join, Clause.operands, if_pos rfl]

theorem holds_merged {m : Type → Type} [Monad m] [LawfulMonad m] (ask : α → m Bool)
    (f : Formula α) : f.merged.holds ask = f.holds ask := by
  induction f using join_induction with
  | atom a => rw [merged, Clause.holds, holds]
  | join go l r ihl ihr =>
    rw [merged_join, Clause.holds, Clause.goesOn_append, Clause.goesOn_operands,
      Clause.goesOn_operands, ihl, ihr, holds_join]

theorem operands_ne_nil (go : Bool) (f : Formula α) : f.merged.operands go ≠ [] := by
  induction f using join_induction generalizing go with
  | atom a => exact List.cons_ne_nil _ _
  | join go' l r ihl _ =>
    rw [merged_join, Clause.operands]
    split
    · exact List.append_ne_nil_of_left_ne_nil (ihl go') _
    · exact List.cons_ne_nil _ _

theorem two_le_operands_join (go : Bool) (l r : Formula α) :
    2 ≤ ((join go l r).merged.operands go).length := by
  have hl := List.length_pos_iff.mpr (operands_ne_nil go l)
  have hr := List.length_pos_iff.mpr (operands_ne_nil go r)
  rw [operands_join, List.length_append]
  omega

end Formula

/-- What contributes several operands to a chain is a chain of the same kind. -/
theorem Clause.eq_joined_of_two_le {α : Type} {go : Bool} {c : Clause α}
    (h : 2 ≤ (c.operands go).length) : c = .joined go (c.operands go) := by
  cases c with
  | atom a => exact absurd h (by simp [operands])
  | joined go' cs =>
    rw [operands] at h ⊢
    split at h
    · rename_i hgo
      rw [if_pos hgo, hgo]
    · exact absurd h (by simp)

theorem Clause.operands_not {α : Type} {go : Bool} {c : Clause α}
    (h : 2 ≤ (c.operands go).length) : c.operands (!go) = [.joined go (c.operands go)] := by
  have hc := eq_joined_of_two_le h
  generalize c.operands go = cs at hc
  rw [hc, operands, if_neg (by cases go <;> decide)]

def connective : Bool → TokenKind
  | true => .and
  | false => .or

/-- The operands of a chain that a row of tokens spells, with groups nested at most `depth` deep. A
group belongs to the chain if it spells a chain of the same kind, and is one operand otherwise; a
chain of "and" is one operand of a chain of "or" even without parentheses. -/
inductive Spells : ℕ → Bool → List Token → List (Clause Comparison) → Prop where
  | comparison {depth : ℕ} {go : Bool} {left operator right : Token} {comparator : Comparator}
      (front : left.kind = .literal) (middle : operator.kind = .operator)
      (symbol : comparator.symbol = operator.text) (back : right.kind = .literal) :
      Spells depth go [left, operator, right]
        [.atom ⟨unquote left.text, comparator, unquote right.text⟩]
  | group {depth : ℕ} {go : Bool} {ts : List Token} {cs : List (Clause Comparison)}
      {opening closing : Token} (front : opening.kind = .leftParen) (inner : Spells depth go ts cs)
      (back : closing.kind = .rightParen) :
      Spells (depth + 1) go (opening :: (ts ++ [closing])) cs
  | operand {depth : ℕ} {go : Bool} {ts : List Token} {cs : List (Clause Comparison)}
      {opening closing : Token} (front : opening.kind = .leftParen)
      (inner : Spells depth (!go) ts cs) (several : 2 ≤ cs.length)
      (back : closing.kind = .rightParen) :
      Spells (depth + 1) go (opening :: (ts ++ [closing])) [.joined (!go) cs]
  | conjunction {depth : ℕ} {ts : List Token} {cs : List (Clause Comparison)}
      (inner : Spells depth true ts cs) (several : 2 ≤ cs.length) :
      Spells depth false ts [.joined true cs]
  | joined {depth : ℕ} {go : Bool} {ts us : List Token} {cs ds : List (Clause Comparison)}
      {mark : Token} (left : Spells depth go ts cs) (kind : mark.kind = connective go)
      (right : Spells depth go us ds) : Spells depth go (ts ++ mark :: us) (cs ++ ds)

def chainRule : Bool → Rule
  | true => .conjunction
  | false => .expression

def operandRule : Bool → Rule
  | true => .primary
  | false => .conjunction

namespace Derives

variable {go : Bool} {depth : ℕ} {ts us : List Token} {mark : Token} {c l r : Condition}

theorem join (left : Derives (chainRule go) depth ts l) (kind : mark.kind = connective go)
    (right : Derives (operandRule go) depth us r) :
    Derives (chainRule go) depth (ts ++ mark :: us) (.join go l r) := by
  cases go with
  | true => exact .and left kind right
  | false => exact .or left kind right

/-- A chain is its first operand, or a chain with one more operand behind it. -/
theorem chain_induction {motive : List Token → Condition → Prop}
    (h : Derives (chainRule go) depth ts c)
    (one : ∀ ts c, Derives (operandRule go) depth ts c → motive ts c)
    (more : ∀ ts us mark l r, mark.kind = connective go → Derives (operandRule go) depth us r →
      motive ts l → motive (ts ++ mark :: us) (.join go l r)) : motive ts c := by
  generalize hrule : chainRule go = rule at h
  cases go with
  | true =>
    induction h with
    | conjunct h => exact one _ _ h
    | and _ kind right ihl _ => exact more _ _ _ _ _ kind right (ihl one more hrule)
    | _ => cases hrule
  | false =>
    induction h with
    | disjunct h => exact one _ _ h
    | or _ kind right ihl _ => exact more _ _ _ _ _ kind right (ihl one more hrule)
    | _ => cases hrule

theorem append (left : Derives (chainRule go) depth ts l) (kind : mark.kind = connective go)
    (right : Derives (chainRule go) depth us r) :
    ∃ c, Derives (chainRule go) depth (ts ++ mark :: us) c ∧
      c.merged.operands go = l.merged.operands go ++ r.merged.operands go := by
  refine right.chain_induction (motive := fun us r => ∃ c,
    Derives (chainRule go) depth (ts ++ mark :: us) c ∧
      c.merged.operands go = l.merged.operands go ++ r.merged.operands go)
    (fun us r h => ?_) (fun us vs mark' r r' kind' right ih => ?_)
  · exact ⟨_, left.join kind h, Formula.operands_join go l r⟩
  · obtain ⟨c, hc, hoperands⟩ := ih
    refine ⟨.join go c r', ?_, ?_⟩
    · rw [← List.cons_append, ← List.append_assoc]
      exact hc.join kind' right
    · rw [Formula.operands_join, Formula.operands_join, hoperands, List.append_assoc]

end Derives

/-- However its chains are grouped, a row that spells a clause derives a condition that is merged to
this clause. -/
theorem Spells.derives {depth : ℕ} {go : Bool} {ts : List Token} {cs : List (Clause Comparison)}
    (h : Spells depth go ts cs) :
    ∃ c, Derives (chainRule go) depth ts c ∧ c.merged.operands go = cs := by
  have hprimary : ∀ {depth : ℕ} {go : Bool} {ts : List Token} {c : Condition},
      Derives .primary depth ts c → Derives (chainRule go) depth ts c :=
    fun h => h.widen (Nat.zero_le _)
  induction h with
  | comparison front middle symbol back =>
    exact ⟨_, hprimary (.comparison front middle symbol back), rfl⟩
  | group front _ back ih =>
    obtain ⟨c, hc, hoperands⟩ := ih
    exact ⟨c, hprimary (.group front (hc.widen (Rule.rank_le _)) back), hoperands⟩
  | @operand depth go ts cs opening closing front _ several back ih =>
    obtain ⟨c, hc, rfl⟩ := ih
    refine ⟨c, hprimary (.group front (hc.widen (Rule.rank_le _)) back), ?_⟩
    have hother := Clause.operands_not several
    rwa [Bool.not_not] at hother
  | conjunction _ several ih =>
    obtain ⟨c, hc, rfl⟩ := ih
    exact ⟨c, .disjunct hc, Clause.operands_not several⟩
  | joined _ kind _ ihl ihr =>
    obtain ⟨l, hl, rfl⟩ := ihl
    obtain ⟨r, hr, rfl⟩ := ihr
    exact hl.append kind hr

def SpellsAs (depth : ℕ) (ts : List Token) (c : Condition) : Rule → Prop
  | .expression => Spells depth false ts (c.merged.operands false) ∧
      ((c.merged.operands false).length < 2 → Spells depth true ts (c.merged.operands true))
  | .conjunction | .primary => ∀ go, Spells depth go ts (c.merged.operands go)

theorem Derives.spells {rule : Rule} {depth : ℕ} {ts : List Token} {c : Condition}
    (h : Derives rule depth ts c) : SpellsAs depth ts c rule := by
  induction h with
  | disjunct _ ih => exact ⟨ih false, fun _ => ih true⟩
  | @or _ _ _ _ l r _ kind _ ihl ihr =>
    refine ⟨?_, fun hone => absurd hone (Nat.not_lt.mpr (Formula.two_le_operands_join false l r))⟩
    exact (Formula.operands_join false l r).symm ▸ .joined ihl.1 kind (ihr false)
  | conjunct _ ih => exact ih
  | @and depth ts us mark l r _ kind _ ihl ihr =>
    have hchain : Spells depth true (ts ++ mark :: us) ((Formula.and l r).merged.operands true) :=
      (Formula.operands_join true l r).symm ▸ .joined (ihl true) kind (ihr true)
    intro go
    cases go with
    | true => exact hchain
    | false => exact .conjunction hchain (Formula.two_le_operands_join true l r)
  | @group depth ts opening closing c front _ back ih =>
    intro go
    cases go with
    | false => exact .group front ih.1 back
    | true =>
      rcases Nat.lt_or_ge (c.merged.operands false).length 2 with hone | hseveral
      · exact .group front (ih.2 hone) back
      · rw [Clause.eq_joined_of_two_le hseveral]
        exact .operand front ih.1 hseveral back
  | comparison front middle symbol back => exact fun go => .comparison front middle symbol back

/-- A condition spells its own clause, and every source that spells the same one is a condition that
asks the same. -/
theorem parse_spells {source : Text} {c : Condition} (h : parse source = .ok c) :
    (∃ ts, Tokenized source ts ∧ Spells 50 false ts (c.merged.operands false)) ∧
      ∀ source' ts, Tokenized source' ts → Spells 50 false ts (c.merged.operands false) →
        ∃ c', parse source' = .ok c' ∧ ∀ {m : Type → Type} [Monad m] [LawfulMonad m]
          (ask : Comparison → m Bool), c'.holds ask = c.holds ask := by
  constructor
  · obtain ⟨ts, htokens, hderives⟩ := derives_of_parse h
    exact ⟨ts, htokens, hderives.spells.1⟩
  · intro source' ts htokens hspells
    obtain ⟨c', hderives, hoperands⟩ := hspells.derives
    refine ⟨c', parse_of_derives htokens hderives, fun ask => ?_⟩
    rw [← Formula.holds_merged, ← Clause.goesOn_operands ask false, hoperands,
      Clause.goesOn_operands, Formula.holds_merged]

end Conditions.Expression
