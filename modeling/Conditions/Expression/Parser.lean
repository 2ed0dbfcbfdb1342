import Conditions.Expression.Cursor
import Conditions.Expression.Formula
import Conditions.Expression.Literal

/-!
# Parsing

A condition is read by looking at one token at a time. What has been read of the innermost open
group is a frame: the finished disjuncts, folded to the left, and the conjuncts of the disjunct in
progress, folded to the left as well. The frames of the groups around it wait on a stack. `decision`
says what a token means in a given state; `run` repeats it until the condition ends.

A parser counts the groups it is in. The count goes up in front of a group and down behind it, so
after a failure it stays where it was.
-/

set_option autoImplicit false

namespace Conditions.Expression

structure Frame where
  disjuncts : Option Condition
  conjuncts : Option Condition
  deriving DecidableEq, Repr, Inhabited

namespace Frame

def empty : Frame := ⟨none, none⟩

def conjoin (f : Frame) (c : Condition) : Condition :=
  match f.conjuncts with
  | none => c
  | some left => .and left c

def close (f : Frame) (c : Condition) : Condition :=
  match f.disjuncts with
  | none => f.conjoin c
  | some left => .or left (f.conjoin c)

end Frame

inductive Wanted where
  | primary
  | operator (left : Text)
  | rightOperand (left : Text) (comparator : Comparator)
  | connective (read : Condition)
  deriving DecidableEq, Repr, Inhabited

structure State where
  frame : Frame
  outer : List Frame
  wanted : Wanted
  deriving DecidableEq, Repr, Inhabited

namespace State

def initial : State := ⟨.empty, [], .primary⟩

end State

inductive Decision where
  | shift (next : State)
  | reject (cause : Cause)
  | refuse (cause : Cause)
  | accept (condition : Condition)
  deriving DecidableEq, Repr

def State.decision (s : State) (depth : Nat) (t : Token) : Decision :=
  match s.wanted with
  | .primary =>
    match t.kind with
    | .leftParen =>
      if depth < maxDepth then .shift ⟨.empty, s.frame :: s.outer, .primary⟩ else .refuse .tooDeep
    | .literal => .shift { s with wanted := .operator t.text }
    | _ => .refuse (.expected "left operand" t.found)
  | .operator left =>
    match t.kind with
    | .operator =>
      match Comparator.ofSymbol? t.text with
      | some comparator => .shift { s with wanted := .rightOperand left comparator }
      | none => .reject (.unknownOperator t.text)
    | _ => .refuse (.expected "comparison operator" t.found)
  | .rightOperand left comparator =>
    match t.kind with
    | .literal =>
      .shift { s with
        wanted := .connective (.atom ⟨unquote left, comparator, unquote t.text⟩) }
    | _ => .refuse (.expected "right operand" t.found)
  | .connective read =>
    match t.kind with
    | .and => .shift ⟨{ s.frame with conjuncts := some (s.frame.conjoin read) }, s.outer, .primary⟩
    | .or => .shift ⟨⟨some (s.frame.close read), none⟩, s.outer, .primary⟩
    | kind =>
      match s.outer with
      | [] => .accept (s.frame.close read)
      | around :: outer =>
        if kind = .rightParen then .shift ⟨around, outer, .connective (s.frame.close read)⟩
        else .refuse (.expected "')'" t.found)

theorem State.decision_eof {s s' : State} {depth : Nat} {t : Token} (ht : t.kind = .eof) :
    s.decision depth t ≠ .shift s' := by
  unfold State.decision
  rw [ht]
  cases s.wanted with
  | primary => simp
  | operator _ => simp
  | rightOperand _ _ => simp
  | connective _ => cases s.outer <;> simp

/-- How a run of the parser ended: its answer, where it stands, and how many groups it is in. -/
structure Ending where
  answer : Except Fault Condition
  cursor : Cursor
  groups : Nat

/-- Reads a condition from the current token on, inside `depth` groups. A group counts as soon as
its parenthesis is seen and until the closing one is passed. -/
def run (depth : Nat) (c : Cursor) (s : State) : Ending :=
  match hd : s.decision (depth + s.outer.length) c.current with
  | .accept condition => ⟨.ok condition, c, depth + s.outer.length⟩
  | .refuse cause =>
    ⟨.error (c.current.fault c.source cause), c,
      depth + s.outer.length + if cause = .tooDeep then 1 else 0⟩
  | .reject cause =>
    match c.next with
    | .ok c' => ⟨.error (c.current.fault c.source cause), c', depth + s.outer.length⟩
    | .error fault => ⟨.error fault, c, depth + s.outer.length⟩
  | .shift s' =>
    match _hn : c.next with
    | .ok c' => run depth c' s'
    | .error fault => ⟨.error fault, c, depth + max s.outer.length s'.outer.length⟩
termination_by c.remaining
decreasing_by
  refine Cursor.remaining_next ?_ _hn
  cases he : c.atEnd with
  | false => rfl
  | true => exact absurd hd (State.decision_eof (by simpa [Cursor.atEnd] using he))

structure Parser where
  cursor : Cursor
  depth : Nat
  deriving DecidableEq, Repr

namespace Parser

def ofCursor (c : Cursor) : Parser := ⟨c, 0⟩

def condition (p : Parser) : Except Fault Condition × Parser :=
  let ending := run p.depth p.cursor .initial
  (ending.answer, ⟨ending.cursor, ending.groups⟩)

def advance (p : Parser) : Except Fault Token × Parser :=
  match p.cursor.next with
  | .ok c => (.ok p.cursor.current, { p with cursor := c })
  | .error fault => (.error fault, p)

def expect (p : Parser) (kind : TokenKind) (what : String) : Except Fault Token × Parser :=
  let t := p.cursor.current
  if t.kind = kind then p.advance
  else (.error (t.fault p.cursor.source (.expected what t.found)), p)

end Parser

def parse (source : Text) : Except Fault Condition :=
  if source.all Text.isBlank then .error ⟨.empty, source, 0, []⟩
  else do
    let c ← Cursor.start source
    let (answer, p) := (Parser.ofCursor c).condition
    let condition ← answer
    let t := p.cursor.current
    if t.kind = .eof then pure condition
    else throw (t.fault source (.trailing t.text))

def parse? (source : Option Text) : Except Fault Condition := present source >>= parse

end Conditions.Expression
