import Conditions.Expression.Fault

/-!
# Cursors

A cursor stands at one token of a source and scans the next one only when it is moved. A move that
meets an unclosed quote fails and leaves the cursor where it was; at the end of the source the
cursor stays.
-/

set_option autoImplicit false

namespace Conditions.Expression

structure Cursor where
  source : Text
  current : Token
  rest : Text
  deriving DecidableEq, Repr

namespace Cursor

def scanAt (source : Text) (position : Nat) (t : Text) : Except Fault Cursor :=
  match scan position t with
  | .ok (token, rest) => .ok ⟨source, token, rest⟩
  | .error ⟨opening, token⟩ =>
    .error ⟨.unterminated opening.mark, source, opening.position, token⟩

def start (source : Text) : Except Fault Cursor := scanAt source 0 source

def atEnd (c : Cursor) : Bool := c.current.kind == .eof

def next (c : Cursor) : Except Fault Cursor :=
  if c.atEnd then .ok c else scanAt c.source c.current.stop c.rest

def remaining (c : Cursor) : Nat := if c.atEnd then 0 else c.rest.length + 1

theorem scanAt_ok {source t : Text} {position : Nat} {c : Cursor}
    (h : scanAt source position t = .ok c) : scan position t = .ok (c.current, c.rest) := by
  unfold scanAt at h
  split at h
  · simp only [Except.ok.injEq] at h
    simp_all [← h]
  · simp at h

theorem remaining_next {c c' : Cursor} (hc : c.atEnd = false) (h : c.next = .ok c') :
    c'.remaining < c.remaining := by
  unfold next at h
  simp only [hc, Bool.false_eq_true, if_false] at h
  have hs := scanAt_ok h
  unfold remaining
  simp only [hc, Bool.false_eq_true, if_false]
  split
  · omega
  · rename_i he
    have := scan_length hs (by simpa [atEnd] using he)
    omega

def tokens (c : Cursor) : Except Fault (List Token) :=
  if _hc : c.atEnd then .ok [c.current]
  else match _h : c.next with
    | .ok c' => (tokens c').map (c.current :: ·)
    | .error fault => .error fault
termination_by c.remaining
decreasing_by exact remaining_next (by simpa using _hc) _h

end Cursor

def tokens (source : Text) : Except Fault (List Token) :=
  (Cursor.start source).bind Cursor.tokens

def present (source : Option Text) : Except Fault Text :=
  match source with
  | some s => .ok s
  | none => .error ⟨.missing, [], 0, []⟩

end Conditions.Expression
