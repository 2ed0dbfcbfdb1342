import Conditions.Expression.Cursor

/-!
# Tokenizers

A tokenizer keeps an index into its source, from which it scans when it is advanced. The index moves
over the blanks in front of a token before the token is read, and stays there if the token turns out
to be a quote that is not closed.
-/

set_option autoImplicit false

namespace Conditions.Expression
open Text (isBlank)

structure Tokenizer where
  source : Text
  index : Nat
  current : Token
  deriving DecidableEq, Repr

namespace Tokenizer

def scanFrom (source : Text) (index : Nat) : Except Fault Token × Nat :=
  let t := source.drop index
  match scan index t with
  | .ok (token, _) => (.ok token, token.stop)
  | .error ⟨opening, token⟩ =>
    (.error ⟨.unterminated opening.mark, source, opening.position, token⟩,
      index + (t.takeWhile isBlank).length)

def start (source : Text) : Except Fault Tokenizer :=
  match scanFrom source 0 with
  | (.ok token, index) => .ok ⟨source, index, token⟩
  | (.error fault, _) => .error fault

def atEnd (z : Tokenizer) : Bool := z.current.kind == .eof

def advance (z : Tokenizer) : Except Fault Token × Tokenizer :=
  if z.atEnd then (.ok z.current, z)
  else match scanFrom z.source z.index with
    | (.ok token, index) => (.ok z.current, { z with index := index, current := token })
    | (.error fault, index) => (.error fault, { z with index := index })

end Tokenizer

end Conditions.Expression
