import Conditions.Expression.Parser

/-!
# Compiling with a cache

A source is parsed once and its condition kept, as long as fewer than `capacity` other sources have
been compiled since. Every parse makes a condition with a serial number of its own, so that one
from the cache can be told from a new one. A source that cannot be parsed leaves nothing behind.
-/

set_option autoImplicit false

namespace Conditions.Evaluator
open Expression

structure Compiled where
  condition : Condition
  serial : Nat
  deriving DecidableEq, Repr

structure Cache where
  capacity : Nat
  held : List (Text × Compiled)
  made : Nat
  deriving DecidableEq, Repr

namespace Cache

def empty (capacity : Nat) : Cache := ⟨capacity, [], 0⟩

def make (c : Cache) (source : Text) : Except Fault Compiled × Cache :=
  match parse source with
  | .error fault => (.error fault, c)
  | .ok condition =>
    let compiled := ⟨condition, c.made⟩
    (.ok compiled,
      { c with held := ((source, compiled) :: c.held).take c.capacity, made := c.made + 1 })

def compile (c : Cache) (source : Text) : Except Fault Compiled × Cache :=
  match c.held.lookup source with
  | some compiled =>
    (.ok compiled, { c with held := (source, compiled) :: c.held.filter fun e => e.1 != source })
  | none => c.make source

end Cache

end Conditions.Evaluator
