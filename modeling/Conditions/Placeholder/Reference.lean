import Conditions.Text.Basic

/-!
# References in a text

A reference is a name between two delimiters, either braces or percent signs. A text is cut from
the left: where an opening delimiter is followed by allowed characters, at least one, up to a
closing delimiter, there is a reference, and cutting goes on behind it; every other character is
plain.
-/

set_option autoImplicit false

namespace Conditions.Placeholder

structure Style where
  opening : Char
  closing : Char
  allows : Char → Bool

def brace : Style :=
  ⟨'{', '}', fun c => c != '{' && c != '}' && c != '%' && !Text.isBlank c⟩

def percent : Style := ⟨'%', '%', fun c => c != '%' && !Text.isBlank c⟩

inductive Piece where
  | plain (c : Char)
  | reference (name : Text)
  deriving DecidableEq, Repr

def Style.name? (s : Style) (t : Text) : Option (Text × Text) :=
  let name := t.takeWhile s.allows
  match t.dropWhile s.allows with
  | [] => none
  | c :: rest => if c = s.closing && !name.isEmpty then some (name, rest) else none

theorem Style.name?_length {s : Style} {t name rest : Text} (h : s.name? t = some (name, rest)) :
    rest.length < t.length := by
  unfold Style.name? at h
  cases hd : t.dropWhile s.allows with
  | nil => simp [hd] at h
  | cons c r =>
    simp only [hd] at h
    split at h
    · simp only [Option.some.injEq, Prod.mk.injEq] at h
      have happ := List.takeWhile_append_dropWhile (p := s.allows) (l := t)
      have := congrArg List.length happ
      rw [hd] at this
      simp only [List.length_append, List.length_cons] at this
      rw [← h.2]
      omega
    · simp at h

def Style.cut (s : Style) : Text → List Piece
  | [] => []
  | c :: rest =>
    if c = s.opening then
      match _h : s.name? rest with
      | some (name, after) => .reference name :: s.cut after
      | none => .plain c :: s.cut rest
    else .plain c :: s.cut rest
termination_by t => t.length
decreasing_by
  all_goals simp only [List.length_cons]
  · have := Style.name?_length _h
    omega
  · omega
  · omega

def Style.verbatim (s : Style) : Piece → Text
  | .plain c => [c]
  | .reference name => s.opening :: name ++ [s.closing]

end Conditions.Placeholder
