import Conditions.Expression.Token

/-!
# Where a literal ends

Whether an index of a literal is quoted is told by reading the literal from its first character. A
literal goes on past everything quoted, and ends at the first unquoted index at which something
else begins.
-/

set_option autoImplicit false

namespace Conditions.Expression
open Text (isBlank)

/-- No symbol stands before one that it begins, so the first one that fits is the longest. -/
theorem symbols_ordered : symbols.Pairwise fun s s' => ¬ s.2 <+: s'.2 := by decide

theorem length_lt_of_symbolAt? {t : Text} {s s' : TokenKind × Text} (h : symbolAt? t = some s)
    (hs' : s' ∈ symbols) (hfits : s'.2 <+: t) : s' = s ∨ s'.2.length < s.2.length := by
  obtain ⟨hs, before, after, hsplit, hbefore⟩ := List.find?_eq_some_iff_append.mp h
  have hordered := symbols_ordered
  rw [hsplit] at hs' hordered
  rcases List.mem_append.mp hs' with hmem | hmem
  · have hnot := hbefore s' hmem
    simp [List.isPrefixOf_iff_prefix.mpr hfits] at hnot
  · rcases List.mem_cons.mp hmem with rfl | hmem
    · exact .inl rfl
    · -- both begin `t`, and the later one does not begin with the earlier one
      right
      have hpair := (List.pairwise_cons.mp (List.pairwise_append.mp hordered).2.1).1 s' hmem
      refine Nat.lt_of_not_le fun hle => hpair ?_
      exact List.prefix_of_prefix_length_le (List.isPrefixOf_iff_prefix.mp hs) hfits hle

theorem symbolAt?_eq_some_iff {t : Text} {s : TokenKind × Text} :
    symbolAt? t = some s ↔
      s ∈ symbols ∧ s.2 <+: t ∧ ∀ s' ∈ symbols, s'.2 <+: t → s'.2.length ≤ s.2.length := by
  constructor
  · intro h
    refine ⟨symbolAt?_mem h, List.isPrefixOf_iff_prefix.mp (isPrefixOf_of_symbolAt? h), ?_⟩
    intro s' hs' hfits
    rcases length_lt_of_symbolAt? h hs' hfits with rfl | hlt
    · exact Nat.le_refl _
    · exact Nat.le_of_lt hlt
  · rintro ⟨hs, hfits, hlongest⟩
    cases h : symbolAt? t with
    | none =>
      have hnone := List.find?_eq_none.mp h s hs
      exact absurd (List.isPrefixOf_iff_prefix.mpr hfits) hnone
    | some s' =>
      have hle := hlongest s' (symbolAt?_mem h)
        (List.isPrefixOf_iff_prefix.mp (isPrefixOf_of_symbolAt? h))
      rcases length_lt_of_symbolAt? h hs hfits with rfl | hlt
      · rfl
      · omega

inductive Quoting where
  | outside
  | inside (mark : Char)
  | escaped (mark : Char)
  deriving DecidableEq, Repr

namespace Quoting

def step : Quoting → Char → Quoting
  | outside, c => if isQuote c then inside c else outside
  | inside mark, c => if c = '\\' then escaped mark else if c = mark then outside else inside mark
  | escaped mark, _ => inside mark

def run (q : Quoting) (t : Text) : Quoting := t.foldl step q

end Quoting

def Boundary (t : Text) : Prop := (∃ c ∈ t.head?, isBlank c = true) ∨ ∃ s ∈ symbols, s.2 <+: t

theorem boundary_iff (c : Char) (t : Text) :
    Boundary (c :: t) ↔ (isBlank c || (symbolAt? (c :: t)).isSome) = true := by
  simp [Boundary, symbolAt?, List.find?_isSome, List.isPrefixOf_iff_prefix]

theorem quote_not_boundary {c : Char} (hc : isQuote c = true) (t : Text) : ¬ Boundary (c :: t) := by
  have hquoteless : ∀ s ∈ symbols, s.2.all (fun d => !isQuote d) = true := by decide
  rintro (⟨d, hd, hblank⟩ | ⟨s, hs, hfits⟩)
  · cases hd
    simp only [isQuote, Bool.or_eq_true, beq_iff_eq] at hc
    rcases hc with rfl | rfl <;> revert hblank <;> decide
  · have hall := hquoteless s hs
    cases htext : s.2 with
    | nil => exact symbol_ne_nil s hs htext
    | cons d rest =>
      rw [htext] at hfits hall
      obtain ⟨rfl, -⟩ := List.cons_prefix_cons.mp hfits
      simp [hc] at hall

def Unbroken (q : Quoting) (t : Text) (n : Nat) : Prop :=
  ∀ k < n, q.run (t.take k) = .outside → ¬ Boundary (t.drop k)

structure Takes (q : Quoting) (t : Text) (n : Nat) : Prop where
  bound : n ≤ t.length
  unbroken : Unbroken q t n
  outside : q.run (t.take n) = .outside
  stops : t.drop n = [] ∨ Boundary (t.drop n)

def Never (q : Quoting) (t : Text) : Prop := ∀ n ≤ t.length, q.run (t.take n) ≠ .outside

structure LeftOpen (q : Quoting) (t : Text) (n : Nat) (mark : Char) : Prop where
  unbroken : Unbroken q t n
  outside : q.run (t.take n) = .outside
  opens : t[n]? = some mark
  quote : isQuote mark = true
  never : Never (q.run (t.take (n + 1))) (t.drop (n + 1))

section
variable {q : Quoting} {c : Char} {t : Text} {n : Nat}

theorem unbroken_succ_iff : Unbroken q (c :: t) (n + 1) ↔
    (q = .outside → ¬ Boundary (c :: t)) ∧ Unbroken (q.step c) t n := by
  constructor
  · intro h
    exact ⟨h 0 (Nat.succ_pos n), fun k hk => h (k + 1) (Nat.succ_lt_succ hk)⟩
  · rintro ⟨hfirst, hrest⟩ k hk
    cases k with
    | zero => exact hfirst
    | succ k => exact hrest k (Nat.lt_of_succ_lt_succ hk)

theorem never_cons_iff : Never q (c :: t) ↔ q ≠ .outside ∧ Never (q.step c) t := by
  constructor
  · intro h
    exact ⟨h 0 (Nat.zero_le _), fun n hn => h (n + 1) (Nat.succ_le_succ hn)⟩
  · rintro ⟨hfirst, hrest⟩ n hn
    cases n with
    | zero => exact hfirst
    | succ n => exact hrest n (Nat.le_of_succ_le_succ hn)

theorem takes_zero_iff : Takes q t 0 ↔ q = .outside ∧ (t = [] ∨ Boundary t) :=
  ⟨fun h => ⟨h.outside, h.stops⟩,
    fun ⟨ho, hs⟩ => ⟨Nat.zero_le _, fun _ hk => absurd hk (Nat.not_lt_zero _), ho, hs⟩⟩

theorem takes_succ_iff : Takes q (c :: t) (n + 1) ↔
    (q = .outside → ¬ Boundary (c :: t)) ∧ Takes (q.step c) t n := by
  constructor
  · rintro ⟨hbound, hunbroken, houtside, hstops⟩
    obtain ⟨hfirst, hrest⟩ := unbroken_succ_iff.mp hunbroken
    exact ⟨hfirst, Nat.le_of_succ_le_succ hbound, hrest, houtside, hstops⟩
  · rintro ⟨hfirst, hbound, hrest, houtside, hstops⟩
    exact ⟨Nat.succ_le_succ hbound, unbroken_succ_iff.mpr ⟨hfirst, hrest⟩, houtside, hstops⟩

theorem leftOpen_zero_iff {mark : Char} : LeftOpen q (c :: t) 0 mark ↔
    q = .outside ∧ c = mark ∧ isQuote c = true ∧ Never (q.step c) t := by
  constructor
  · rintro ⟨-, houtside, hopens, hquote, hnever⟩
    cases hopens
    exact ⟨houtside, rfl, hquote, hnever⟩
  · rintro ⟨houtside, rfl, hquote, hnever⟩
    exact ⟨fun _ hk => absurd hk (Nat.not_lt_zero _), houtside, rfl, hquote, hnever⟩

theorem LeftOpen.starts {mark : Char} (h : LeftOpen .outside (c :: t) n mark) :
    ¬ Boundary (c :: t) := by
  cases n with
  | zero => exact quote_not_boundary (leftOpen_zero_iff.mp h).2.2.1 t
  | succ n => exact h.unbroken 0 (Nat.succ_pos n) rfl

theorem leftOpen_succ_iff {mark : Char} : LeftOpen q (c :: t) (n + 1) mark ↔
    (q = .outside → ¬ Boundary (c :: t)) ∧ LeftOpen (q.step c) t n mark := by
  constructor
  · rintro ⟨hunbroken, houtside, hopens, hquote, hnever⟩
    obtain ⟨hfirst, hrest⟩ := unbroken_succ_iff.mp hunbroken
    exact ⟨hfirst, hrest, houtside, hopens, hquote, hnever⟩
  · rintro ⟨hfirst, hrest, houtside, hopens, hquote, hnever⟩
    exact ⟨unbroken_succ_iff.mpr ⟨hfirst, hrest⟩, houtside, hopens, hquote, hnever⟩

end

def quoting : Option Opening → Quoting
  | none => .outside
  | some o => .inside o.mark

theorem quoting_inside (o : Opening) {c : Char} (hc : c ≠ '\\') :
    (quoting (some o)).step c = quoting (if c = o.mark then none else some o) := by
  simp only [quoting, Quoting.step, hc, if_false]
  split <;> rfl

theorem quoting_outside (position : Nat) (c : Char) :
    (quoting none).step c = quoting (if isQuote c then some ⟨c, position⟩ else none) := by
  simp only [quoting, Quoting.step]
  split <;> rfl

def StillOpen (q : Quoting) (before : Option Opening) (position : Nat) (t : Text) (o : Opening) :
    Prop :=
  before = some o ∧ Never q t ∨ ∃ n, o.position = position + n ∧ LeftOpen q t n o.mark

structure Splits (q : Quoting) (before : Option Opening) (position : Nat) (t : Text)
    (r : Except Opening (Text × Text)) : Prop where
  ok : ∀ front back, r = .ok (front, back) ↔ front ++ back = t ∧ Takes q t front.length
  error : ∀ o, r = .error o ↔ StillOpen q before position t o

section
variable {q : Quoting} {before : Option Opening} {position : Nat} {c : Char} {t : Text}

theorem stillOpen_outside_iff {o : Opening} : StillOpen .outside before position t o ↔
    ∃ n, o.position = position + n ∧ LeftOpen .outside t n o.mark := by
  constructor
  · rintro (⟨-, hnever⟩ | hopen)
    · exact absurd rfl (hnever 0 (Nat.zero_le _))
    · exact hopen
  · exact .inr

theorem stillOpen_nil_iff {o : Opening} (hq : q ≠ .outside) :
    StillOpen q before position [] o ↔ before = some o := by
  constructor
  · rintro (⟨hbefore, -⟩ | ⟨n, -, hopen⟩)
    · exact hbefore
    · cases hopen.opens
  · intro hbefore
    refine .inl ⟨hbefore, fun n hn => ?_⟩
    rw [List.take_nil]
    exact hq

theorem stillOpen_cons_inside {o : Opening} (hq : q ≠ .outside) :
    StillOpen q before position (c :: t) o ↔ StillOpen (q.step c) before (position + 1) t o := by
  have hleft : (∃ n, o.position = position + n ∧ LeftOpen q (c :: t) n o.mark) ↔
      ∃ n, o.position = position + 1 + n ∧ LeftOpen (q.step c) t n o.mark := by
    constructor
    · rintro ⟨n, hn, hopen⟩
      cases n with
      | zero => exact absurd (leftOpen_zero_iff.mp hopen).1 hq
      | succ n => exact ⟨n, by omega, (leftOpen_succ_iff.mp hopen).2⟩
    · rintro ⟨n, hn, hopen⟩
      exact ⟨n + 1, by omega, leftOpen_succ_iff.mpr ⟨fun h => absurd h hq, hopen⟩⟩
  rw [StillOpen, StillOpen, hleft, never_cons_iff]
  simp only [ne_eq, hq, not_false_eq_true, true_and]

theorem stillOpen_cons_outside {o : Opening} (hfirst : ¬ Boundary (c :: t)) :
    StillOpen .outside before position (c :: t) o ↔
      StillOpen (Quoting.outside.step c) (if isQuote c then some ⟨c, position⟩ else none)
        (position + 1) t o := by
  rw [stillOpen_outside_iff]
  constructor
  · rintro ⟨n, hn, hopen⟩
    cases n with
    | zero =>
      obtain ⟨-, hmark, hquote, hnever⟩ := leftOpen_zero_iff.mp hopen
      left
      rw [if_pos hquote]
      refine ⟨?_, hnever⟩
      rw [hmark, ← Nat.add_zero position, ← hn]
    | succ n => exact .inr ⟨n, by omega, (leftOpen_succ_iff.mp hopen).2⟩
  · rintro (⟨ho, hnever⟩ | ⟨n, hn, hopen⟩)
    · split at ho
      · rename_i hquote
        cases ho
        exact ⟨0, rfl, leftOpen_zero_iff.mpr ⟨rfl, rfl, hquote, hnever⟩⟩
      · cases ho
    · exact ⟨n + 1, by omega, leftOpen_succ_iff.mpr ⟨fun _ => hfirst, hopen⟩⟩

end

namespace Splits

variable {q : Quoting} {before before' : Option Opening} {position : Nat} {c : Char} {t : Text}
  {r : Except Opening (Text × Text)}

theorem stuck (hq : q ≠ .outside) (o : Opening) : Splits q (some o) position [] (.error o) where
  ok front back := by
    constructor
    · intro h
      cases h
    · rintro ⟨happend, htakes⟩
      obtain ⟨rfl, rfl⟩ := List.append_eq_nil_iff.mp happend
      exact absurd (takes_zero_iff.mp htakes).1 hq
  error o' := by
    rw [stillOpen_nil_iff hq, Except.error.injEq, Option.some.injEq]

theorem done (hstop : t = [] ∨ Boundary t) : Splits .outside before position t (.ok ([], t)) where
  ok front back := by
    constructor
    · intro h
      cases h
      exact ⟨rfl, takes_zero_iff.mpr ⟨rfl, hstop⟩⟩
    · rintro ⟨happend, htakes⟩
      cases front with
      | nil => rw [← happend, List.nil_append]
      | cons c front =>
        subst happend
        rcases hstop with hnil | hboundary
        · cases hnil
        · exact absurd hboundary ((takes_succ_iff.mp htakes).1 rfl)
  error o := by
    rw [stillOpen_outside_iff]
    constructor
    · intro h
      cases h
    · rintro ⟨n, -, hopen⟩
      cases t with
      | nil => cases hopen.opens
      | cons c t =>
        exact absurd (hstop.resolve_left (List.cons_ne_nil c t)) hopen.starts

/-- Outside quotes it is forgotten which ones were open before. -/
theorem outside (h : Splits .outside before position t r) :
    Splits .outside before' position t r where
  ok := h.ok
  error o := by rw [h.error, stillOpen_outside_iff, stillOpen_outside_iff]

theorem cons (h : Splits (q.step c) before' (position + 1) t r)
    (hfirst : q = .outside → ¬ Boundary (c :: t))
    (hopen : ∀ o, StillOpen q before position (c :: t) o ↔
      StillOpen (q.step c) before' (position + 1) t o) :
    Splits q before position (c :: t) (r.map fun (front, back) => (c :: front, back)) where
  ok front back := by
    cases front with
    | nil =>
      constructor
      · intro hr
        cases r <;> simp [Except.map] at hr
      · rintro ⟨-, htakes⟩
        obtain ⟨houtside, hnil | hboundary⟩ := takes_zero_iff.mp htakes
        · cases hnil
        · exact absurd hboundary (hfirst houtside)
    | cons d front =>
      have hmap : r.map (fun (front, back) => (c :: front, back)) = .ok (d :: front, back) ↔
          d = c ∧ r = .ok (front, back) := by
        cases r <;> simp [Except.map, Prod.ext_iff, and_assoc, eq_comm]
      rw [hmap, h.ok front back, List.length_cons, List.cons_append, List.cons_eq_cons,
        takes_succ_iff, and_assoc]
      exact ⟨fun ⟨hd, happend, htakes⟩ => ⟨hd, happend, hfirst, htakes⟩,
        fun ⟨hd, happend, _, htakes⟩ => ⟨hd, happend, htakes⟩⟩
  error o := by
    rw [hopen, ← h.error]
    cases r <;> simp [Except.map]

theorem inside (h : Splits (q.step c) before (position + 1) t r) (hq : q ≠ .outside) :
    Splits q before position (c :: t) (r.map fun (front, back) => (c :: front, back)) :=
  h.cons (fun houtside => absurd houtside hq) fun _ => stillOpen_cons_inside hq

end Splits

theorem splitLiteral_splits {before : Option Opening} (position : Nat) (t : Text)
    (hbefore : ∀ o ∈ before, isQuote o.mark = true) :
    Splits (quoting before) before position t (splitLiteral before position t) := by
  fun_induction splitLiteral before position t with
  | case1 => exact .done (.inl rfl)
  | case2 o position => exact .stuck (by simp [quoting]) o
  | case3 o position c rest ih =>
    -- the backslash and the character behind it are two steps of the reader
    have hescaped : Splits (.escaped o.mark) (some o) (position + 1) (c :: rest) _ :=
      Splits.inside (ih hbefore) (by simp)
    have hboth : Splits (.inside o.mark) (some o) position ('\\' :: c :: rest) _ :=
      Splits.inside hescaped (by simp)
    cases hr : splitLiteral (some o) (position + 2) rest <;> rw [hr] at hboth <;> exact hboth
  | case4 o position c rest hc ih =>
    by_cases hlast : c = '\\'
    · have hrest : rest = [] := by
        cases rest with
        | nil => rfl
        | cons d rest => exact absurd rfl (hc d rest hlast)
      have hmark : c ≠ o.mark := by
        rintro rfl
        have hquote := hbefore o rfl
        rw [hlast] at hquote
        cases hquote
      subst hrest hlast
      rw [if_neg hmark]
      have hend : Splits (.escaped o.mark) (some o) (position + 1) []
          (splitLiteral (some o) (position + 1) []) := .stuck (by simp) o
      exact Splits.inside (q := .inside o.mark) (c := '\\') hend (by simp)
    · have hstep := quoting_inside o hlast
      refine Splits.inside (q := .inside o.mark) ?_ (by simp)
      change Splits ((quoting (some o)).step c) (some o) (position + 1) rest _
      rw [hstep]
      by_cases hmark : c = o.mark
      · rw [if_pos hmark] at ih ⊢
        exact (ih (by simp)).outside
      · rw [if_neg hmark] at ih ⊢
        exact ih hbefore
  | case5 position c rest hboundary => exact .done (.inr ((boundary_iff c rest).mpr hboundary))
  | case6 position c rest hboundary ih =>
    rw [← boundary_iff] at hboundary
    rw [← quoting_outside] at ih
    refine (ih ?_).cons (fun _ => hboundary) fun o => stillOpen_cons_outside hboundary
    split <;> simp_all

theorem splitLiteral_outside (position : Nat) (t : Text) :
    Splits .outside none position t (splitLiteral none position t) :=
  @splitLiteral_splits none position t (by simp)

end Conditions.Expression
