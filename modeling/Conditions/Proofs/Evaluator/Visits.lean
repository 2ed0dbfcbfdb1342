import Conditions.Proofs.Evaluator.Evaluation
import Conditions.Proofs.Expression.Grouping
import Mathlib.Data.List.Nodup

/-!
# What an evaluation visits

An evaluation goes to the atoms of a formula from left to right and leaves out those that cannot
change what is decided, or that stand behind a failure. To watch it, its formula is numbered and the
visits are noted down. How equal connectives are grouped makes no difference to it.
-/

set_option autoImplicit false

namespace Conditions

namespace Expression.Formula

variable {α : Type}

def atoms : Formula α → List α
  | .atom a => [a]
  | .and l r | .or l r => l.atoms ++ r.atoms

def numbered (k : ℕ) : Formula α → Formula (ℕ × α)
  | .atom a => .atom (k, a)
  | .and l r => .and (l.numbered k) (r.numbered (k + l.atoms.length))
  | .or l r => .or (l.numbered k) (r.numbered (k + l.atoms.length))

def parts (k : ℕ) : Formula α → List (ℕ × Formula α)
  | .atom a => [(k, .atom a)]
  | .and l r => (k, .and l r) :: (l.parts k ++ r.parts (k + l.atoms.length))
  | .or l r => (k, .or l r) :: (l.parts k ++ r.parts (k + l.atoms.length))

def truth (told : ℕ → Bool) (k : ℕ) : Formula α → Bool
  | .atom _ => told k
  | .and l r => l.truth told k && r.truth told (k + l.atoms.length)
  | .or l r => l.truth told k || r.truth told (k + l.atoms.length)

section
variable (k : ℕ) (go : Bool) (l r : Formula α)

theorem atoms_join : (join go l r).atoms = l.atoms ++ r.atoms := by
  cases go <;> rfl

theorem numbered_join :
    (join go l r).numbered k = join go (l.numbered k) (r.numbered (k + l.atoms.length)) := by
  cases go <;> rfl

theorem parts_join : (join go l r).parts k =
    (k, join go l r) :: (l.parts k ++ r.parts (k + l.atoms.length)) := by
  cases go <;> rfl

theorem truth_join (told : ℕ → Bool) : (join go l r).truth told k =
    if l.truth told k = go then r.truth told (k + l.atoms.length) else l.truth told k := by
  cases go with
  | true => cases hl : l.truth told k <;> simp [join, truth, hl]
  | false => cases hl : l.truth told k <;> simp [join, truth, hl]

theorem join_inj {go go' : Bool} {l r l' r' : Formula α} (h : join go l r = join go' l' r') :
    go = go' ∧ l = l' ∧ r = r' := by
  cases go <;> cases go' <;> cases h <;> exact ⟨rfl, rfl, rfl⟩

theorem join_ne_atom {go : Bool} {l r : Formula α} {a : α} : join go l r ≠ .atom a := by
  cases go <;> exact fun h => by cases h

end

theorem parts_bounds {k j : ℕ} {f g : Formula α} (h : (j, g) ∈ f.parts k) :
    k ≤ j ∧ j + g.atoms.length ≤ k + f.atoms.length := by
  induction f using join_induction generalizing k with
  | atom a =>
    obtain ⟨rfl, rfl⟩ := Prod.mk.inj (List.mem_singleton.mp h)
    exact ⟨le_rfl, le_rfl⟩
  | join go l r ihl ihr =>
    rw [parts_join, List.mem_cons, List.mem_append] at h
    rw [atoms_join, List.length_append]
    rcases h with hself | hleft | hright
    · obtain ⟨rfl, rfl⟩ := Prod.mk.inj hself
      rw [atoms_join, List.length_append]
      exact ⟨le_rfl, le_rfl⟩
    · have := ihl hleft
      omega
    · have := ihr hright
      omega

end Expression.Formula

namespace Evaluator
open Expression Journal Placeholder

variable {κ σ : Type}

structure Visit (κ σ : Type) where
  number : ℕ
  leaf : Leaf
  before : Session κ σ
  answer : Except Failure Bool
  after : Session κ σ

abbrev Watched (κ σ : Type) := ExceptT Failure (StateM (Session κ σ × List (Visit κ σ)))

def visit (put : Leaf → Evaluation κ σ Bool) (k : ℕ) (a : Leaf) (s : Session κ σ) : Visit κ σ :=
  ⟨k, a, s, ((put a).run.run s).1, ((put a).run.run s).2⟩

def watch (put : Leaf → Evaluation κ σ Bool) (n : ℕ × Leaf) : Watched κ σ Bool :=
  ExceptT.mk fun p =>
    let v := visit put n.1 n.2 p.1
    (v.answer, v.after, p.2 ++ [v])

def Tells (visits : List (Visit κ σ)) (k : ℕ) (f : Formula Leaf) (b : Bool) : Prop :=
  ∀ told : ℕ → Bool, (∀ v ∈ visits, ∀ c, v.answer = .ok c → told v.number = c) →
    f.truth told k = b

inductive Threaded : Session κ σ → List (Visit κ σ) → Session κ σ → Prop where
  | nil (s : Session κ σ) : Threaded s [] s
  | cons {v : Visit κ σ} {vs : List (Visit κ σ)} {s : Session κ σ} (rest : Threaded v.after vs s) :
      Threaded v.before (v :: vs) s

def Visit.Asks (r : Resolver κ σ) (caller : κ) (v : Visit κ σ) : Prop :=
  match v.leaf with
  | .foreign kind => v.answer = .error (.unknownNode kind) ∧ v.after = v.before
  | .comparison c =>
    let left := r.resolve caller c.left v.before.resolver
    match left.answer with
    | .error message =>
      v.answer = .error (.raised message) ∧ v.after.resolver = left.state ∧
        v.after.asked = v.before.asked ++ [(caller, c.left)]
    | .ok t =>
      let right := r.resolve caller c.right left.state
      v.answer = (right.answer.mapError .raised).map (compare t · c.comparator) ∧
        v.after.resolver = right.state ∧
          v.after.asked = v.before.asked ++ [(caller, c.left), (caller, c.right)]

theorem visit_asks (r : Resolver κ σ) (caller : κ) (k : ℕ) (a : Leaf) (s : Session κ σ) :
    (visit (Evaluation.leaf r caller) k a s).Asks r caller := by
  cases a with
  | foreign kind => exact ⟨rfl, rfl⟩
  | comparison c =>
    simp only [Visit.Asks, visit, Evaluation.leaf, Evaluation.comparison, Evaluation.run_bind,
      Evaluation.run_ask]
    cases (r.resolve caller c.left s.resolver).answer with
    | error message => exact ⟨rfl, rfl, rfl⟩
    | ok t =>
      simp only [Except.mapError]
      cases (r.resolve caller c.right (r.resolve caller c.left s.resolver).state).answer with
      | error message => exact ⟨rfl, rfl, List.append_assoc ..⟩
      | ok u => exact ⟨rfl, rfl, List.append_assoc ..⟩

/-- Asking fails as an unknown leaf does exactly at such a leaf. -/
theorem Visit.Asks.unknown_iff {r : Resolver κ σ} {caller : κ} {v : Visit κ σ}
    (h : v.Asks r caller) (kind : String) :
    v.answer = .error (.unknownNode kind) ↔ v.leaf = .foreign kind := by
  unfold Asks at h
  split at h
  · rename_i kind' hleaf
    rw [h.1, hleaf, Except.error.injEq, Failure.unknownNode.injEq, Leaf.foreign.injEq]
  · rename_i c hleaf
    rw [hleaf]
    refine iff_of_false (fun hanswer => ?_) (fun h => by cases h)
    dsimp only at h
    split at h
    · rw [h.1] at hanswer
      cases hanswer
    · rw [h.1] at hanswer
      cases hright : (r.resolve caller c.right
          (r.resolve caller c.left v.before.resolver).state).answer with
      | error message =>
        rw [hright] at hanswer
        cases hanswer
      | ok u =>
        rw [hright] at hanswer
        cases hanswer

inductive Course (put : Leaf → Evaluation κ σ Bool) :
    ℕ → Formula Leaf → Session κ σ → List (Visit κ σ) → Except Failure Bool → Session κ σ → Prop where
  | atom (k : ℕ) (a : Leaf) (s : Session κ σ) :
      Course put k (.atom a) s [visit put k a s] (visit put k a s).answer (visit put k a s).after
  | decided {k : ℕ} {go : Bool} {l r : Formula Leaf} {s s' : Session κ σ}
      {vs : List (Visit κ σ)} {answer : Except Failure Bool} (left : Course put k l s vs answer s')
      (stop : answer ≠ .ok go) : Course put k (.join go l r) s vs answer s'
  | goesOn {k : ℕ} {go : Bool} {l r : Formula Leaf} {s s' s'' : Session κ σ}
      {vs ws : List (Visit κ σ)} {answer : Except Failure Bool}
      (left : Course put k l s vs (.ok go) s')
      (right : Course put (k + l.atoms.length) r s' ws answer s'') :
      Course put k (.join go l r) s (vs ++ ws) answer s''

section
variable {put : Leaf → Evaluation κ σ Bool} {k : ℕ} {f : Formula Leaf} {s s' : Session κ σ}
  {vs ws : List (Visit κ σ)} {answer : Except Failure Bool}

theorem Watched.run_bind {α β : Type} (e : Watched κ σ α) (next : α → Watched κ σ β)
    (p : Session κ σ × List (Visit κ σ)) :
    (e >>= next).run.run p = match e.run.run p with
      | (.ok a, p') => (next a).run.run p'
      | (.error failure, p') => (.error failure, p') := by
  rw [ExceptT.run_bind, StateT.run_bind]
  cases e.run.run p with
  | mk answer p' => cases answer <;> rfl

/-- A watched evaluation is the evaluation itself, and its notes are the visits of its course. -/
theorem watch_course (put : Leaf → Evaluation κ σ Bool) (k : ℕ) (f : Formula Leaf)
    (s : Session κ σ) (past : List (Visit κ σ)) :
    ∃ vs answer s', Course put k f s vs answer s' ∧
      (f.holds put).run.run s = (answer, s') ∧
        ((f.numbered k).holds (watch put)).run.run (s, past) = (answer, s', past ++ vs) := by
  induction f using Formula.join_induction generalizing k s past with
  | atom a => exact ⟨_, _, _, .atom k a s, rfl, rfl⟩
  | join go l r ihl ihr =>
    obtain ⟨vs, answer, s', hcourse, hrun, hwatched⟩ := ihl k s past
    rw [Formula.numbered_join, Formula.holds_join, Formula.holds_join, Evaluation.run_bind,
      Watched.run_bind, hrun, hwatched]
    cases answer with
    | error failure => exact ⟨vs, _, s', .decided hcourse (fun h => by cases h), rfl, rfl⟩
    | ok b =>
      dsimp only
      split
      · rename_i hgo
        subst hgo
        obtain ⟨ws, answer', s'', hcourse', hrun', hwatched'⟩ :=
          ihr (k + l.atoms.length) s' (past ++ vs)
        rw [List.append_assoc] at hwatched'
        exact ⟨vs ++ ws, answer', s'', .goesOn hcourse hcourse', hrun', hwatched'⟩
      · rename_i hgo
        exact ⟨vs, .ok b, s', .decided hcourse (fun h => hgo (Except.ok.inj h)), rfl, rfl⟩

theorem Threaded.append {s'' : Session κ σ} (h : Threaded s vs s') (h' : Threaded s' ws s'') :
    Threaded s (vs ++ ws) s'' := by
  induction h with
  | nil => exact h'
  | cons _ ih => exact .cons (ih h')

namespace Course

theorem threaded (h : Course put k f s vs answer s') : Threaded s vs s' := by
  induction h with
  | atom k a s => exact .cons (v := visit put k a s) (.nil _)
  | decided _ _ ih => exact ih
  | goesOn _ _ ihl ihr => exact ihl.append ihr

/-- Each visit is to a leaf of the formula, and does what asking that leaf does. -/
theorem visits_leaf (h : Course put k f s vs answer s') {v : Visit κ σ} (hv : v ∈ vs) :
    k ≤ v.number ∧ f.atoms[v.number - k]? = some v.leaf ∧
      v = visit put v.number v.leaf v.before := by
  induction h with
  | atom k a s =>
    obtain rfl := List.mem_singleton.mp hv
    exact ⟨le_rfl, by simp [visit, Formula.atoms], rfl⟩
  | @decided k go l r s s' vs answer _ _ ih =>
    obtain ⟨hle, hleaf, hvisit⟩ := ih hv
    have hlt := (List.getElem?_eq_some_iff.mp hleaf).1
    refine ⟨hle, ?_, hvisit⟩
    rw [Formula.atoms_join, List.getElem?_append_left hlt, hleaf]
  | @goesOn k go l r s s' s'' vs ws answer _ _ ihl ihr =>
    rw [Formula.atoms_join]
    rcases List.mem_append.mp hv with hv | hv
    · obtain ⟨hle, hleaf, hvisit⟩ := ihl hv
      have hlt := (List.getElem?_eq_some_iff.mp hleaf).1
      exact ⟨hle, by rw [List.getElem?_append_left hlt, hleaf], hvisit⟩
    · obtain ⟨hle, hleaf, hvisit⟩ := ihr hv
      refine ⟨by omega, ?_, hvisit⟩
      rw [List.getElem?_append_right (by omega), Nat.sub_sub, hleaf]

theorem number_lt (h : Course put k f s vs answer s') {v : Visit κ σ} (hv : v ∈ vs) :
    k ≤ v.number ∧ v.number < k + f.atoms.length := by
  obtain ⟨hle, hleaf, -⟩ := h.visits_leaf hv
  have := (List.getElem?_eq_some_iff.mp hleaf).1
  omega

theorem increasing (h : Course put k f s vs answer s') :
    vs.Pairwise fun v w => v.number < w.number := by
  induction h with
  | atom => exact List.pairwise_singleton _ _
  | decided _ _ ih => exact ih
  | goesOn left right ihl ihr =>
    refine List.pairwise_append.mpr ⟨ihl, ihr, fun v hv w hw => ?_⟩
    have := left.number_lt hv
    have := right.number_lt hw
    omega

theorem error_iff (h : Course put k f s vs answer s') (failure : Failure) :
    answer = .error failure ↔ ∃ v ∈ vs, v.answer = .error failure := by
  induction h with
  | atom => simp
  | decided _ _ ih => exact ih
  | goesOn left right ihl ihr =>
    rw [ihr]
    constructor
    · rintro ⟨v, hv, hanswer⟩
      exact ⟨v, List.mem_append_right _ hv, hanswer⟩
    · rintro ⟨v, hv, hanswer⟩
      rcases List.mem_append.mp hv with hv | hv
      · exact absurd (ihl.mpr ⟨v, hv, hanswer⟩) (fun h => by cases h)
      · exact ⟨v, hv, hanswer⟩

theorem answered (h : Course put k f s vs answer s') {v w : Visit κ σ} (hv : v ∈ vs)
    (hw : w ∈ vs) (hlt : v.number < w.number) : ∃ b, v.answer = .ok b := by
  induction h with
  | atom =>
    rw [List.mem_singleton.mp hv, List.mem_singleton.mp hw] at hlt
    exact absurd hlt (lt_irrefl _)
  | decided _ _ ih => exact ih hv hw
  | goesOn left right ihl ihr =>
    rcases List.mem_append.mp hv with hv | hv
    · cases hanswer : v.answer with
      | ok b => exact ⟨b, rfl⟩
      | error failure => cases (left.error_iff failure).mpr ⟨v, hv, hanswer⟩
    · rcases List.mem_append.mp hw with hw | hw
      · have := right.number_lt hv
        have := left.number_lt hw
        omega
      · exact ihr hv hw

theorem tells {b : Bool} (h : Course put k f s vs (.ok b) s') : Tells vs k f b := by
  generalize hanswer : Except.ok b = answer at h
  induction h generalizing b with
  | atom k a s => exact fun told htold => htold _ (List.mem_singleton_self _) b hanswer.symm
  | @decided k go l r s s' vs answer _ stop ih =>
    subst hanswer
    intro told htold
    have hleft := ih rfl told htold
    rw [Formula.truth_join, hleft, if_neg fun hgo : b = go => stop (congrArg _ hgo)]
  | @goesOn k go l r s s' s'' vs ws answer left _ ihl ihr =>
    intro told htold
    have hleft := ihl rfl told fun v hv => htold v (List.mem_append_left _ hv)
    have hright := ihr hanswer told fun v hv => htold v (List.mem_append_right _ hv)
    rw [Formula.truth_join, if_pos hleft, hright]

end Course

theorem Tells.mono {g : Formula Leaf} {b : Bool} (h : Tells vs k g b) (hsub : vs ⊆ ws) :
    Tells ws k g b :=
  fun told htold => h told fun v hv => htold v (hsub hv)

/-- Every part that could keep a leaf from being visited lets it be: where the leaf is on the right
side, the left side is told what lets the evaluation go on. -/
def LetThrough (vs : List (Visit κ σ)) (k : ℕ) (f : Formula Leaf) (n : ℕ) : Prop :=
  ∀ j go l r, (j, Formula.join go l r) ∈ f.parts k → j + l.atoms.length ≤ n →
    n < j + l.atoms.length + r.atoms.length → Tells vs j l go

def Kept (vs : List (Visit κ σ)) (k : ℕ) (f : Formula Leaf) (n : ℕ) : Prop :=
  ∃ j go l r, (j, Formula.join go l r) ∈ f.parts k ∧ j + l.atoms.length ≤ n ∧
    n < j + l.atoms.length + r.atoms.length ∧ Tells vs j l (!go)

section
variable {n : ℕ} {l r : Formula Leaf}

theorem Kept.left (h : Kept vs k l n) (hsub : vs ⊆ ws) (go : Bool) (r : Formula Leaf) :
    Kept ws k (.join go l r) n := by
  obtain ⟨j, go', l', r', hpart, hlow, hhigh, htells⟩ := h
  refine ⟨j, go', l', r', ?_, hlow, hhigh, htells.mono hsub⟩
  rw [Formula.parts_join]
  exact List.mem_cons_of_mem _ (List.mem_append_left _ hpart)

theorem Kept.right (h : Kept vs (k + l.atoms.length) r n) (hsub : vs ⊆ ws) (go : Bool) :
    Kept ws k (.join go l r) n := by
  obtain ⟨j, go', l', r', hpart, hlow, hhigh, htells⟩ := h
  refine ⟨j, go', l', r', ?_, hlow, hhigh, htells.mono hsub⟩
  rw [Formula.parts_join]
  exact List.mem_cons_of_mem _ (List.mem_append_right _ hpart)

end

namespace Course

theorem letThrough (h : Course put k f s vs answer s') {v : Visit κ σ} (hv : v ∈ vs) :
    LetThrough vs k f v.number := by
  induction h with
  | atom k a s =>
    intro j go l r hpart
    exact absurd (Prod.mk.inj (List.mem_singleton.mp hpart)).2 Formula.join_ne_atom
  | @decided k go l r s s' vs answer left _ ih =>
    intro j go' l' r' hpart hfrom hto
    have hnumber := left.number_lt hv
    rw [Formula.parts_join, List.mem_cons, List.mem_append] at hpart
    rcases hpart with hself | hleft | hright
    · obtain ⟨rfl, hjoin⟩ := Prod.mk.inj hself
      obtain ⟨-, rfl, -⟩ := Formula.join_inj hjoin
      omega
    · exact ih hv j go' l' r' hleft hfrom hto
    · have := Formula.parts_bounds hright
      omega
  | @goesOn k go l r s s' s'' vs ws answer left right ihl ihr =>
    intro j go' l' r' hpart hfrom hto
    rw [Formula.parts_join, List.mem_cons, List.mem_append] at hpart
    rcases hpart with hself | hleft | hright
    · obtain ⟨rfl, hjoin⟩ := Prod.mk.inj hself
      obtain ⟨rfl, rfl, -⟩ := Formula.join_inj hjoin
      exact left.tells.mono (List.subset_append_left _ _)
    · have hbounds := Formula.parts_bounds hleft
      rw [Formula.atoms_join, List.length_append] at hbounds
      rcases List.mem_append.mp hv with hv | hv
      · exact (ihl hv j go' l' r' hleft hfrom hto).mono (List.subset_append_left _ _)
      · have := right.number_lt hv
        omega
    · have hbounds := Formula.parts_bounds hright
      rcases List.mem_append.mp hv with hv | hv
      · have := left.number_lt hv
        omega
      · exact (ihr hv j go' l' r' hright hfrom hto).mono (List.subset_append_right _ _)

/-- What is not visited stands behind a failure, or is kept from being visited. -/
theorem visited_or_kept (h : Course put k f s vs answer s') {n : ℕ} (hfrom : k ≤ n)
    (hto : n < k + f.atoms.length) :
    (∃ v ∈ vs, v.number = n) ∨ (∃ v ∈ vs, v.number < n ∧ ∃ failure, v.answer = .error failure) ∨
      Kept vs k f n := by
  induction h with
  | atom k a s =>
    have hnumber : (visit put k a s).number = n := by
      simp only [Formula.atoms, List.length_singleton] at hto
      change k = n
      omega
    exact .inl ⟨_, List.mem_singleton_self _, hnumber⟩
  | @decided k go l r s s' vs answer left stop ih =>
    rw [Formula.atoms_join, List.length_append] at hto
    rcases Nat.lt_or_ge n (k + l.atoms.length) with hlt | hge
    · exact (ih hfrom hlt).imp_right (Or.imp_right fun hkept => hkept.left (List.Subset.refl _) go r)
    · cases answer with
      | error failure =>
        obtain ⟨v, hv, hanswer⟩ := (left.error_iff failure).mp rfl
        have := left.number_lt hv
        exact .inr (.inl ⟨v, hv, by omega, failure, hanswer⟩)
      | ok b =>
        obtain rfl : b = !go := by
          cases b <;> cases go <;> first | rfl | exact absurd rfl stop
        refine .inr (.inr ⟨k, go, l, r, ?_, hge, by omega, left.tells⟩)
        rw [Formula.parts_join]
        exact List.mem_cons_self
  | @goesOn k go l r s s' s'' vs ws answer left right ihl ihr =>
    rw [Formula.atoms_join, List.length_append] at hto
    rcases Nat.lt_or_ge n (k + l.atoms.length) with hlt | hge
    · obtain ⟨v, hv, hnumber⟩ | ⟨v, hv, hrest⟩ | hkept := ihl hfrom hlt
      · exact .inl ⟨v, List.mem_append_left _ hv, hnumber⟩
      · exact .inr (.inl ⟨v, List.mem_append_left _ hv, hrest⟩)
      · exact .inr (.inr (hkept.left (List.subset_append_left _ _) go r))
    · obtain ⟨v, hv, hnumber⟩ | ⟨v, hv, hrest⟩ | hkept := ihr hge (by omega)
      · exact .inl ⟨v, List.mem_append_right _ hv, hnumber⟩
      · exact .inr (.inl ⟨v, List.mem_append_right _ hv, hrest⟩)
      · exact .inr (.inr (hkept.right (List.subset_append_right _ _) go))

theorem exists_told (h : Course put k f s vs answer s') :
    ∃ told : ℕ → Bool, ∀ v ∈ vs, ∀ c, v.answer = .ok c → told v.number = c := by
  classical
  have hnodup : (vs.map Visit.number).Nodup :=
    List.pairwise_map.mpr (h.increasing.imp fun hlt => hlt.ne)
  refine ⟨fun n => decide (∃ w ∈ vs, w.number = n ∧ w.answer = .ok true), fun v hv c hanswer => ?_⟩
  cases c with
  | true => exact decide_eq_true ⟨v, hv, rfl, hanswer⟩
  | false =>
    refine decide_eq_false ?_
    rintro ⟨w, hw, hnumber, htrue⟩
    obtain rfl := List.inj_on_of_nodup_map hnodup hw hv hnumber
    rw [hanswer] at htrue
    cases htrue

theorem visited_iff (h : Course put k f s vs answer s') {n : ℕ} (hfrom : k ≤ n)
    (hto : n < k + f.atoms.length) :
    (∃ v ∈ vs, v.number = n) ↔
      (∀ v ∈ vs, v.number < n → ∃ b, v.answer = .ok b) ∧ LetThrough vs k f n := by
  constructor
  · rintro ⟨w, hw, rfl⟩
    exact ⟨fun v hv hlt => h.answered hv hw hlt, h.letThrough hw⟩
  · rintro ⟨hanswered, hthrough⟩
    obtain hvisited | ⟨v, hv, hlt, failure, herror⟩ | ⟨j, go, l, r, hpart, hlow, hhigh, htells⟩ :=
      h.visited_or_kept hfrom hto
    · exact hvisited
    · obtain ⟨b, hb⟩ := hanswered v hv hlt
      rw [hb] at herror
      cases herror
    · obtain ⟨told, htold⟩ := h.exists_told
      have hgo := hthrough j go l r hpart hlow hhigh told htold
      rw [htells told htold] at hgo
      exact absurd hgo (by cases go <;> decide)

theorem ok_iff (h : Course put k f s vs answer s') (b : Bool) :
    answer = .ok b ↔ (∀ v ∈ vs, ∃ c, v.answer = .ok c) ∧ Tells vs k f b := by
  constructor
  · rintro rfl
    refine ⟨fun v hv => ?_, h.tells⟩
    cases hanswer : v.answer with
    | ok c => exact ⟨c, rfl⟩
    | error failure => cases (h.error_iff failure).mpr ⟨v, hv, hanswer⟩
  · rintro ⟨hanswered, htells⟩
    cases answer with
    | error failure =>
      obtain ⟨v, hv, herror⟩ := (h.error_iff failure).mp rfl
      obtain ⟨c, hc⟩ := hanswered v hv
      rw [hc] at herror
      cases herror
    | ok c =>
      obtain ⟨told, htold⟩ := h.exists_told
      rw [← h.tells told htold, htells told htold]

end Course

end

/-- An evaluation consists of visits to leaves, from left to right and to each at most once. A leaf
is visited exactly if nothing failed before it and every part lets it through. Each visit asks what
the leaf asks, and what the leaves told is what the formula comes to. -/
theorem evaluation_trace (r : Resolver κ σ) (caller : κ) (f : Formula Leaf) (s : Session κ σ) :
    let run := (f.holds (Evaluation.leaf r caller)).run.run s
    let watched := ((f.numbered 0).holds (watch (Evaluation.leaf r caller))).run.run (s, [])
    let visits := watched.2.2
    (watched.1 = run.1 ∧ watched.2.1 = run.2) ∧
    Threaded s visits run.2 ∧
    (∀ v ∈ visits, f.atoms[v.number]? = some v.leaf ∧ v.Asks r caller) ∧
    visits.Pairwise (fun v w => v.number < w.number) ∧
    (∀ n < f.atoms.length, (∃ v ∈ visits, v.number = n) ↔
      (∀ v ∈ visits, v.number < n → ∃ b, v.answer = .ok b) ∧ LetThrough visits 0 f n) ∧
    (∀ b, run.1 = .ok b ↔ (∀ v ∈ visits, ∃ c, v.answer = .ok c) ∧ Tells visits 0 f b) ∧
    (∀ failure, run.1 = .error failure ↔ ∃ v ∈ visits, v.answer = .error failure) ∧
    ∀ kind, run.1 = .error (.unknownNode kind) ↔ ∃ v ∈ visits, v.leaf = .foreign kind := by
  intro run watched visits
  obtain ⟨vs, answer, s', hcourse, hrun, hwatched⟩ :=
    watch_course (Evaluation.leaf r caller) 0 f s []
  obtain rfl : visits = vs := congrArg (·.2.2) hwatched
  have hanswer : run.1 = answer := congrArg Prod.fst hrun
  have hend : run.2 = s' := congrArg Prod.snd hrun
  have hasks : ∀ v ∈ visits, v.Asks r caller := by
    intro v hv
    rw [(hcourse.visits_leaf hv).2.2]
    exact visit_asks r caller ..
  rw [← hanswer, ← hend] at hcourse
  refine ⟨⟨(congrArg Prod.fst hwatched).trans hanswer.symm,
    (congrArg (·.2.1) hwatched).trans hend.symm⟩, hcourse.threaded,
    fun v hv => ⟨(hcourse.visits_leaf hv).2.1, hasks v hv⟩, hcourse.increasing,
    fun n hn => hcourse.visited_iff (Nat.zero_le n) (by omega), fun b => hcourse.ok_iff b,
    hcourse.error_iff, fun kind => ?_⟩
  rw [hcourse.error_iff]
  exact exists_congr fun v => and_congr_right fun hv => (hasks v hv).unknown_iff kind

/-- Formulas that differ only in how equal connectives are grouped are evaluated alike, in every
session; and so are the conditions of sources that spell the same clause. -/
theorem grouping_unobservable (r : Resolver κ σ) (caller : κ) :
    (∀ f g : Formula Leaf, f.merged = g.merged → ∀ s : Session κ σ,
      (f.holds (Evaluation.leaf r caller)).run.run s =
        (g.holds (Evaluation.leaf r caller)).run.run s) ∧
    ∀ source c, parse source = .ok c →
      (∃ ts, Tokenized source ts ∧ Spells 50 false ts (c.merged.operands false)) ∧
      ∀ source' ts, Tokenized source' ts → Spells 50 false ts (c.merged.operands false) →
        ∃ c', parse source' = .ok c' ∧ ∀ s : Session κ σ,
          (Evaluation.condition r caller c').run.run s =
            (Evaluation.condition r caller c).run.run s := by
  constructor
  · intro f g hmerged s
    rw [← Formula.holds_merged, hmerged, Formula.holds_merged]
  · intro source c hparse
    obtain ⟨hspells, hrespelled⟩ := parse_spells hparse
    refine ⟨hspells, fun source' ts htokens hts => ?_⟩
    obtain ⟨c', hparse', hholds⟩ := hrespelled source' ts htokens hts
    refine ⟨c', hparse', fun s => ?_⟩
    rw [Evaluation.condition, Evaluation.condition, hholds]

def skittish : Resolver Unit ℕ where
  resolve _ t count := ⟨if t = ['?'] then .error "lost" else .ok t, [], count + 1⟩

/-- Three comparisons, the second of which fails, grouped to the left and to the right. -/
theorem grouping_unobservable_three :
    let a : Comparison := ⟨['x'], .equal, ['x']⟩
    let b : Comparison := ⟨['1'], .less, ['?']⟩
    let f : Formula Leaf := .and (.and (.atom (.comparison a)) (.atom (.comparison b)))
      (.atom (.foreign "int"))
    let g : Formula Leaf := .and (.atom (.comparison a))
      (.and (.atom (.comparison b)) (.atom (.foreign "int")))
    let c : Condition := .and (.and (.atom a) (.atom b)) (.atom a)
    let source' := "x==x && (1<? && x==x)".toList
    f.merged = g.merged ∧
      (f.holds (Evaluation.leaf skittish ())).run.run (.start 0) =
        (g.holds (Evaluation.leaf skittish ())).run.run (.start 0) ∧
      parse "x==x && 1<? && x==x".toList = .ok c ∧
      ∃ ts, Tokenized source' ts ∧ Spells 50 false ts (c.merged.operands false) ∧
        ∃ c', parse source' = .ok c' ∧
          (Evaluation.condition skittish () c').run.run (.start 0) =
            (Evaluation.condition skittish () c).run.run (.start 0) := by
  intro a b f g c source'
  have hmerged : f.merged = g.merged := rfl
  have hparse : parse "x==x && 1<? && x==x".toList = .ok c := by decide +kernel
  obtain ⟨htrees, htexts⟩ := grouping_unobservable skittish ()
  let first : List Token := [⟨.literal, ['x'], 0⟩, ⟨.operator, ['=', '='], 1⟩, ⟨.literal, ['x'], 3⟩]
  let second : List Token := [⟨.literal, ['1'], 9⟩, ⟨.operator, ['<'], 10⟩, ⟨.literal, ['?'], 11⟩]
  let third : List Token :=
    [⟨.literal, ['x'], 16⟩, ⟨.operator, ['=', '='], 17⟩, ⟨.literal, ['x'], 19⟩]
  let last := second ++ ⟨.and, ['&', '&'], 13⟩ :: third
  let ts := first ++ ⟨.and, ['&', '&'], 5⟩ ::
    (⟨.leftParen, ['('], 8⟩ :: (last ++ [⟨.rightParen, [')'], 20⟩]))
  have htokens : Tokenized source' ts := ⟨⟨.eof, [], 21⟩, rfl, by decide +kernel⟩
  have hlast : Spells 49 true last [.atom b, .atom a] :=
    .joined (.comparison rfl rfl rfl rfl) rfl (.comparison rfl rfl rfl rfl)
  have hchain : Spells 50 true ts ([.atom a] ++ [.atom b, .atom a]) :=
    .joined (.comparison rfl rfl rfl rfl) rfl (.group rfl hlast rfl)
  have hspells : Spells 50 false ts (c.merged.operands false) := .conjunction hchain (by decide)
  obtain ⟨c', hparse', hsame⟩ := (htexts _ c hparse).2 source' ts htokens hspells
  exact ⟨hmerged, htrees f g hmerged _, hparse, ts, htokens, hspells, c', hparse', hsame _⟩

end Evaluator

end Conditions
