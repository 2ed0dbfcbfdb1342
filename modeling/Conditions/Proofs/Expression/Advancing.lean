import Conditions.Expression.Tokenizer
import Conditions.Proofs.Expression.FirstFault

/-!
# Advancing a tokenizer

Between two calls a tokenizer may stand anywhere in the blanks behind its current token, and this is
all that a failed call changes. So a tokenizer goes through the tokens of its source one by one, and
stays at the last one that is scanned: at the end, or in front of a quote that is not closed.
-/

set_option autoImplicit false

namespace Conditions.Expression
open Text (isBlank)

def Tokenizer.after (z : Tokenizer) : Nat → Tokenizer
  | 0 => z
  | n + 1 => (z.after n).advance.2

structure Tokenizer.Follows (z : Tokenizer) (c : Cursor) : Prop where
  source : z.source = c.source
  current : z.current = c.current
  rest : c.rest = c.source.drop c.current.stop
  gap : Gap c.source c.current.stop z.index

section
variable {source : Text} {z : Tokenizer} {c c' : Cursor} {ts : List Token} {stop : Option Fault}

/-- What is left behind a token is what stands there in the source. -/
theorem scan_rest {i : Nat} {token : Token} {back : Text}
    (h : scan i (source.drop i) = .ok (token, back)) : back = source.drop token.stop := by
  have hbody : source.drop (i + ((source.drop i).takeWhile isBlank).length) =
      (source.drop i).dropWhile isBlank := drop_behind List.takeWhile_append_dropWhile.symm
  unfold scan at h
  dsimp only at h
  rw [← hbody] at h
  generalize i + ((source.drop i).takeWhile isBlank).length = start at h
  split at h
  · cases h
    exact (List.isEmpty_iff.mp ‹_›).symm
  · split at h
    · cases h
      exact List.drop_drop
    · split at h
      · cases h
        exact (drop_behind (splitLiteral_append ‹_›).symm).symm
      · cases h

theorem gap_takeWhile (source : Text) (i : Nat) :
    Gap source i (i + ((source.drop i).takeWhile isBlank).length) :=
  Gap.of_blanks (fun _ hc => List.mem_takeWhile_imp hc) List.takeWhile_append_dropWhile.symm

/-- A scan from an index in the source is the scan of a cursor there. -/
theorem scanFrom_eq (source : Text) (i : Nat) :
    Tokenizer.scanFrom source i = match Cursor.scanAt source i (source.drop i) with
      | .ok c => (.ok c.current, c.current.stop)
      | .error fault => (.error fault, i + ((source.drop i).takeWhile isBlank).length) := by
  unfold Tokenizer.scanFrom Cursor.scanAt
  dsimp only
  cases scan i (source.drop i) <;> rfl

theorem Cursor.rest_of_scanAt {i : Nat} (h : scanAt source i (source.drop i) = .ok c) :
    c.rest = source.drop c.current.stop := scan_rest (scanAt_ok h)

namespace Tokenizer

theorem follows_of_scanAt {i : Nat} (h : Cursor.scanAt source i (source.drop i) = .ok c) :
    Follows ⟨source, c.current.stop, c.current⟩ c where
  source := (Cursor.source_of_scanAt h).symm
  current := rfl
  rest := by
    rw [Cursor.source_of_scanAt h]
    exact Cursor.rest_of_scanAt h
  gap := Gap.refl _ _

theorem start_eq (source : Text) : start source =
    (Cursor.start source).map fun c => ⟨source, c.current.stop, c.current⟩ := by
  have hstart : Cursor.start source = Cursor.scanAt source 0 (source.drop 0) := rfl
  unfold start
  rw [scanFrom_eq, hstart]
  cases Cursor.scanAt source 0 (source.drop 0) <;> rfl

/-- Blanks do not matter to a scan, so it goes as it does for the cursor. -/
theorem Follows.next (h : z.Follows c) (going : c.atEnd = false) :
    c.next = Cursor.scanAt c.source z.index (c.source.drop z.index) := by
  rw [← scanAt_gap h.gap, Cursor.next, going, h.rest]
  rfl

theorem Follows.atEnd (h : z.Follows c) : z.atEnd = c.atEnd := by
  rw [Tokenizer.atEnd, Cursor.atEnd, h.current]

theorem Follows.advance_last (h : z.Follows c) (finished : c.atEnd = true) :
    z.advance = (.ok c.current, z) := by
  rw [advance, h.atEnd, finished, h.current]
  rfl

theorem Follows.advance_cons (h : z.Follows c) (going : c.atEnd = false) (next : c.next = .ok c') :
    z.advance.1 = .ok c.current ∧ z.advance.2.Follows c' := by
  rw [h.next going] at next
  rw [advance, h.atEnd, going, scanFrom_eq, h.source, next, h.current]
  exact ⟨rfl, follows_of_scanAt next⟩

theorem Follows.advance_stuck {fault : Fault} (h : z.Follows c) (going : c.atEnd = false)
    (next : c.next = .error fault) : z.advance.1 = .error fault ∧ z.advance.2.Follows c := by
  rw [h.next going] at next
  rw [advance, h.atEnd, going, scanFrom_eq, h.source, next]
  exact ⟨rfl, { h with source := rfl, gap := h.gap.trans (gap_takeWhile _ _) }⟩

/-- What a tokenizer shows and how it answers, with the tokens `ts` before it. -/
theorem Follows.shows (h : z.Follows c) (hwalks : c.Walks ts stop) :
    ts.head? = some z.current ∧ (z.atEnd = true ↔ stop = none ∧ ts.length = 1) ∧
      z.advance.1 =
        if 1 < ts.length then .ok z.current else stop.elim (.ok z.current) .error := by
  rw [h.atEnd, h.current]
  cases hwalks with
  | last finished => exact ⟨rfl, by simp [finished], congrArg Prod.fst (h.advance_last finished)⟩
  | stuck going next => exact ⟨rfl, by simp [going], (h.advance_stuck going next).1⟩
  | cons going next rest =>
    have hpos := List.length_pos_iff.mpr rest.ne_nil
    refine ⟨rfl, by simp [going, rest.ne_nil], ?_⟩
    rw [(h.advance_cons going next).1]
    exact (if_pos (Nat.succ_lt_succ hpos)).symm

theorem advance_source (z : Tokenizer) : z.advance.2.source = z.source := by
  unfold advance
  split
  · rfl
  · split <;> rfl

theorem after_source (z : Tokenizer) (n : Nat) : (z.after n).source = z.source := by
  induction n with
  | zero => rfl
  | succ n ih => rw [after, advance_source, ih]

/-- After any number of advances a tokenizer follows a cursor that has the rest of the tokens before
it, one of them at least. -/
theorem Follows.after {last : Nat} (h : z.Follows c) (hwalks : c.Walks ts stop)
    (hlast : ts.length = last + 1) (n : Nat) :
    ∃ d, (z.after n).Follows d ∧ d.Walks (ts.drop (min n last)) stop := by
  induction n with
  | zero => exact ⟨c, h, by simpa using hwalks⟩
  | succ n ih =>
    obtain ⟨d, hfollows, hrest⟩ := ih
    have hlength : (ts.drop (min n last)).length = last + 1 - min n last := by
      rw [List.length_drop, hlast]
    generalize hus : ts.drop (min n last) = us at hrest hlength
    cases hrest with
    | last finished =>
      have hmin : min (n + 1) last = min n last := by
        rw [List.length_singleton] at hlength
        omega
      refine ⟨d, ?_, by rw [hmin, hus]; exact .last finished⟩
      rw [Tokenizer.after, hfollows.advance_last finished]
      exact hfollows
    | stuck going next =>
      have hmin : min (n + 1) last = min n last := by
        rw [List.length_singleton] at hlength
        omega
      exact ⟨d, (hfollows.advance_stuck going next).2, by rw [hmin, hus]; exact .stuck going next⟩
    | @cons _ d' us _ going next rest =>
      have hmin : min (n + 1) last = min n last + 1 := by
        have hpos := List.length_pos_iff.mpr rest.ne_nil
        rw [List.length_cons] at hlength
        omega
      refine ⟨d', (hfollows.advance_cons going next).2, ?_⟩
      rw [hmin, ← List.tail_drop, hus]
      exact rest

theorem Follows.shows_after {last : Nat} (h : z.Follows c) (hwalks : c.Walks ts stop)
    (hlast : ts.length = last + 1) (n : Nat) :
    ts[min n last]? = some (z.after n).current ∧
      ((z.after n).atEnd = true ↔ stop = none ∧ last ≤ n) ∧
      (z.after n).advance.1 = if n < last then .ok (z.after n).current
        else stop.elim (.ok (z.after n).current) .error := by
  obtain ⟨d, hfollows, hrest⟩ := h.after hwalks hlast n
  obtain ⟨hcurrent, hend, hanswer⟩ := hfollows.shows hrest
  rw [List.head?_drop] at hcurrent
  rw [List.length_drop, hlast] at hend hanswer
  have hone : last + 1 - min n last = 1 ↔ last ≤ n := by omega
  have hmore : 1 < last + 1 - min n last ↔ n < last := by omega
  simp only [hone] at hend
  simp only [hmore] at hanswer
  exact ⟨hcurrent, hend, hanswer⟩

/-- Some advance fails exactly if scanning stops at a fault, and with that one. -/
theorem Follows.fails_iff {last : Nat} (h : z.Follows c) (hwalks : c.Walks ts stop)
    (hlast : ts.length = last + 1) (fault : Fault) :
    (∃ n, (z.after n).advance.1 = .error fault) ↔ stop = some fault := by
  constructor
  · rintro ⟨n, hanswer⟩
    rw [(h.shows_after hwalks hlast n).2.2] at hanswer
    by_cases hn : n < last
    · rw [if_pos hn] at hanswer
      cases hanswer
    · rw [if_neg hn] at hanswer
      cases stop with
      | none => cases hanswer
      | some told =>
        cases hanswer
        rfl
  · intro hstop
    subst hstop
    refine ⟨last, (h.shows_after hwalks hlast last).2.2.trans ?_⟩
    exact if_neg (Nat.lt_irrefl last)

end Tokenizer

theorem Scanned.error_iff (h : Scanned source ts stop) (fault : Fault) :
    Expression.tokens source = .error fault ↔ stop = some fault := by
  rw [h.tokens]
  cases stop <;> simp

theorem Cursor.remaining_of_scanAt {t : Text} {i : Nat} (h : scanAt source i t = .ok c) :
    c.remaining ≤ t.length := by
  unfold remaining
  cases hc : c.atEnd with
  | true => exact Nat.zero_le _
  | false => exact scan_length (scanAt_ok h) (by simpa [atEnd] using hc)

theorem Cursor.Walks.length_le (h : c.Walks ts stop) : ts.length ≤ c.remaining + 1 := by
  induction h with
  | last _ | stuck _ _ => exact Nat.succ_le_succ (Nat.zero_le _)
  | cons going next _ ih => exact Nat.succ_le_succ (Nat.le_trans ih (remaining_next going next))

/-- A tokenizer that has been started has at least one token before it, and at most one more than
there are characters. -/
theorem Tokenizer.start_walks (h : start source = .ok z) (hscanned : Scanned source ts stop) :
    z.source = source ∧
      ∃ c last, z.Follows c ∧ c.Walks ts stop ∧ ts.length = last + 1 ∧ last ≤ source.length := by
  rw [start_eq] at h
  rcases hscanned.begins with ⟨c, hscan, -, hwalks⟩ | ⟨fault, hscan, -⟩
  · have hstart : Cursor.start source = .ok c := hscan
    rw [hstart] at h
    cases h
    have hpos := List.length_pos_iff.mpr hwalks.ne_nil
    have hlength := hwalks.length_le
    have hremaining := Cursor.remaining_of_scanAt hscan
    rw [List.length_drop] at hremaining
    exact ⟨rfl, c, ts.length - 1, follows_of_scanAt hscan, hwalks, by omega, by omega⟩
  · have hstart : Cursor.start source = .error fault := hscan
    rw [hstart] at h
    cases h

end

/-- A tokenizer whose first token can be scanned goes through the tokens of its source, one with
each advance, and stays at the last of them: at the end, where an advance changes nothing, or in
front of a quote that is not closed, where every advance fails with the fault that the whole source
is told. -/
theorem advance_follows_tokens {source : Text} {z : Tokenizer}
    (h : Tokenizer.start source = .ok z) :
    ∃ ts stop last, Scanned source ts stop ∧ ts.length = last + 1 ∧ last ≤ source.length ∧
      tokens source = stop.elim (.ok ts) .error ∧
      (∀ n, (z.after n).source = source ∧ ts[min n last]? = some (z.after n).current ∧
        ((z.after n).atEnd = true ↔ stop = none ∧ last ≤ n) ∧
        (z.after n).advance.1 = if n < last then .ok (z.after n).current
          else stop.elim (.ok (z.after n).current) .error) ∧
      ∀ fault, tokens source = .error fault ↔ ∃ n, (z.after n).advance.1 = .error fault := by
  obtain ⟨ts, stop, hscanned⟩ := scanned_total source
  obtain ⟨hsource, c, last, hfollows, hwalks, hlast, hbound⟩ := Tokenizer.start_walks h hscanned
  refine ⟨ts, stop, last, hscanned, hlast, hbound, hscanned.tokens, fun n => ⟨?_, ?_⟩,
    fun fault => ?_⟩
  · rw [z.after_source, hsource]
  · exact hfollows.shows_after hwalks hlast n
  · rw [hscanned.error_iff, hfollows.fails_iff hwalks hlast]

/-- The tokenizer of a quote that is not closed, with a token and blanks in front of it, keeps the
token however often it is advanced. -/
theorem advance_follows_tokens_open :
    let source : Text := ['a', ' ', ' ', '"', 'b']
    let z : Tokenizer := ⟨source, 1, ⟨.literal, ['a'], 0⟩⟩
    Tokenizer.start source = .ok z ∧ ∀ n, (z.after n).current = ⟨.literal, ['a'], 0⟩ ∧
      (z.after n).advance.1 = .error ⟨.unterminated '"', source, 3, ['"', 'b']⟩ := by
  intro source z
  have hstart : Tokenizer.start source = .ok z := rfl
  refine ⟨hstart, ?_⟩
  obtain ⟨ts, stop, last, -, -, -, -, hsteps, -⟩ := advance_follows_tokens hstart
  have hfault : z.advance.1 = .error ⟨.unterminated '"', source, 3, ['"', 'b']⟩ := rfl
  obtain ⟨-, hcurrent, -, hanswer⟩ := hsteps 0
  rw [Tokenizer.after] at hcurrent hanswer
  rw [hfault] at hanswer
  cases last with
  | succ last => cases hanswer
  | zero =>
    intro n
    obtain ⟨-, hcurrent', -, hanswer'⟩ := hsteps n
    rw [Nat.min_zero] at hcurrent hcurrent'
    rw [hcurrent, Option.some.injEq] at hcurrent'
    rw [hanswer', ← hcurrent']
    exact ⟨rfl, hanswer.symm⟩

end Conditions.Expression
