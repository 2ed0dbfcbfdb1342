import Conditions.Text.Basic

/-!
# Spots

A spot is a place in a text with everything that lies ahead. It counts the characters and the line
ends behind it, and the columns of its line; a byte order mark takes no column.
-/

set_option autoImplicit false

namespace Conditions.Yaml

def isBreak (c : Char) : Bool := c == '\n' || c == '\x85' || c == '\u2028' || c == '\u2029'

structure Spot where
  rest : Text
  index : Nat
  line : Nat
  column : Nat
  deriving Repr, Inhabited

namespace Spot

def start (t : Text) : Spot := ⟨t, 0, 0, 0⟩

def next (s : Spot) : Spot :=
  match s.rest with
  | [] => s
  | c :: rest =>
    if isBreak c then ⟨rest, s.index + 1, s.line + 1, 0⟩
    else ⟨rest, s.index + 1, s.line, if c = '\ufeff' then s.column else s.column + 1⟩

def skip : Nat → Spot → Spot
  | 0, s => s
  | n + 1, s => skip n s.next

def peek (s : Spot) : Option Char := s.rest.head?

def peekAt (s : Spot) (n : Nat) : Option Char := s.rest[n]?

def isAt (s : Spot) (c : Char) : Bool := s.peek == some c

def span (s : Spot) (ok : Char → Bool) : Text × Spot :=
  let taken := s.rest.takeWhile ok
  (taken, s.skip taken.length)

def skipWhile (s : Spot) (ok : Char → Bool) : Spot := (s.span ok).2

def skipSpaces (s : Spot) : Spot := s.skipWhile (· == ' ')

def skipLine (s : Spot) : Spot := s.skipWhile fun c => !isBreak c

def break? (s : Spot) : Option (Char × Spot) :=
  match s.rest with
  | [] => none
  | c :: _ =>
    if c = '\n' || c = '\x85' then some ('\n', s.next)
    else if isBreak c then some (c, s.next)
    else none

def endsWord : Option Char → Bool
  | none => true
  | some c => c == ' ' || c == '\t' || isBreak c

def endsPart : Option Char → Bool
  | none => true
  | some c => c == ' ' || isBreak c

def atMark (s : Spot) (c : Char) : Bool := [c, c, c].isPrefixOf s.rest && endsWord (s.peekAt 3)

def atDocumentMark (s : Spot) : Bool := s.atMark '-' || s.atMark '.'

def finishLine? (s : Spot) : Option Spot :=
  let s := s.skipSpaces
  let s := if s.isAt '#' then s.skipLine else s
  match s.break? with
  | some (_, s) => some s
  | none => if s.rest.isEmpty then some s else none

end Spot

end Conditions.Yaml
