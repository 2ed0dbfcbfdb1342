import Conditions.Yaml.Value

/-!
# The order of a set

A set shows its numbers in the order of a table. A number stands in the place that its code says, or
else in one of the next places that is free. A code is a residue modulo a prime, so numbers that are
equal have the same one. Sets with other elements keep the order in which these were put in; it is
one of those that occur, for the codes of texts are chosen anew in every run.
-/

set_option autoImplicit false

namespace Conditions.Yaml

def codePrime : Nat := pow2 61 - 1

def codeOf (negative : Bool) (residue : Nat) : Nat :=
  if !negative || residue = 0 then residue
  else pow2 64 - (if residue = 1 then 2 else residue)

namespace Value

def code? : Value → Option Nat
  | .null => some 0xfca86420
  | .bool b => some (if b then 1 else 0)
  | .int n => some (codeOf (n < 0) (n.natAbs % codePrime))
  | .float x =>
    if x.code = Binary64.infinityCode then some (codeOf x.negative 314159)
    else
      let (num, den) := Binary64.ratio x.code
      let halves := pow2 ((61 - den.log2 % 61) % 61)
      some (codeOf x.negative (num * halves % codePrime))
  | _ => none

end Value

structure Table where
  rows : List (Nat × Value)

def Table.isFree (t : Table) (place : Nat) : Bool := !t.rows.any fun e => e.1 == place

def Table.free? (t : Table) (place : Nat) : Nat → Option Nat
  | 0 => if t.isFree place then some place else none
  | more + 1 => if t.isFree place then some place else t.free? (place + 1) more

def Table.place (t : Table) (size : Nat) : Nat → Nat → Nat → Nat
  | 0, _, place => place
  | fuel + 1, rest, place =>
    match t.free? place (if place + 9 < size then 9 else 0) with
    | some free => free
    | none =>
      let rest := rest / 32
      t.place size fuel rest ((place * 5 + 1 + rest) % size)

def tableSize (count : Nat) : Nat := if count < 5 then 8 else max 8 (pow2 ((2 * count).log2 + 1))

def Table.add (size : Nat) (t : Table) (code : Nat) (v : Value) : Table :=
  ⟨(t.place size (size + 64) code (code % size), v) :: t.rows⟩

def setOrder (elements : List Value) : List Value :=
  match elements.mapM fun v => v.code?.map fun code => (code, v) with
  | some coded =>
    let size := tableSize elements.length
    let table := coded.foldl (fun t e => t.add size e.1 e.2) (⟨[]⟩ : Table)
    (table.rows.mergeSort fun a b => a.1 ≤ b.1).map (·.2)
  | none => elements

end Conditions.Yaml
