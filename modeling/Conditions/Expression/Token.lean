import Conditions.Text.Basic

/-!
# Tokens

The kinds of token, the symbols that make them, and the reading of one token from the front of a
text. Symbols are tried in the order of their table, in which every symbol stands before its own
beginnings, so the longest one wins. Whatever is neither blank nor a symbol is a literal.
-/

set_option autoImplicit false

namespace Conditions.Expression
open Text (isBlank)

inductive TokenKind where
  | leftParen
  | rightParen
  | and
  | or
  | operator
  | literal
  | eof
  deriving DecidableEq, Repr, Inhabited

def TokenKind.label : TokenKind → String
  | .leftParen => "LPAREN"
  | .rightParen => "RPAREN"
  | .and => "AND"
  | .or => "OR"
  | .operator => "OPERATOR"
  | .literal => "LITERAL"
  | .eof => "EOF"

structure Token where
  kind : TokenKind
  text : Text
  position : Nat
  deriving DecidableEq, Repr, Inhabited

def Token.stop (t : Token) : Nat := t.position + t.text.length

/-- The symbols in the order in which they are tried. A lone `=` is read as an operator although
no comparison goes by it. -/
def symbols : List (TokenKind × Text) :=
  [(.leftParen, ['(']), (.rightParen, [')']), (.and, ['&', '&']), (.or, ['|', '|']),
   (.operator, ['!', '>', '>']), (.operator, ['!', '<', '<']), (.operator, ['>', '=']),
   (.operator, ['<', '=']), (.operator, ['=', '=']), (.operator, ['!', '=']),
   (.operator, ['>', '>']), (.operator, ['<', '<']), (.operator, ['>']), (.operator, ['<']),
   (.operator, ['='])]

def symbolAt? (t : Text) : Option (TokenKind × Text) :=
  symbols.find? fun s => s.2.isPrefixOf t

def isQuote (c : Char) : Bool := c == '"' || c == '\''

structure Opening where
  mark : Char
  position : Nat
  deriving DecidableEq, Repr

/-- Splits a literal off a text that starts at index `position`. Inside quotes every character
belongs to it, and a backslash takes the next character with it; outside it ends in front of a
blank or a symbol. It fails with the quote that is still open at the end of the text. -/
def splitLiteral : Option Opening → Nat → Text → Except Opening (Text × Text)
  | none, _, [] => .ok ([], [])
  | some o, _, [] => .error o
  | some o, position, '\\' :: c :: rest =>
    (splitLiteral (some o) (position + 2) rest).map fun (front, back) => ('\\' :: c :: front, back)
  | some o, position, c :: rest =>
    (splitLiteral (if c = o.mark then none else some o) (position + 1) rest).map
      fun (front, back) => (c :: front, back)
  | none, position, c :: rest =>
    if isBlank c || (symbolAt? (c :: rest)).isSome then .ok ([], c :: rest)
    else
      (splitLiteral (if isQuote c then some ⟨c, position⟩ else none) (position + 1) rest).map
        fun (front, back) => (c :: front, back)

structure Unclosed where
  opening : Opening
  token : Text
  deriving DecidableEq, Repr

def scan (position : Nat) (t : Text) : Except Unclosed (Token × Text) :=
  let start := position + (t.takeWhile isBlank).length
  let body := t.dropWhile isBlank
  if body.isEmpty then .ok (⟨.eof, [], start⟩, [])
  else match symbolAt? body with
    | some (kind, symbol) => .ok (⟨kind, symbol, start⟩, body.drop symbol.length)
    | none => match splitLiteral none start body with
      | .ok (front, back) => .ok (⟨.literal, front, start⟩, back)
      | .error opening => .error ⟨opening, body⟩

theorem symbolAt?_mem {t : Text} {s : TokenKind × Text} (h : symbolAt? t = some s) :
    s ∈ symbols := List.mem_of_find?_eq_some h

theorem isPrefixOf_of_symbolAt? {t : Text} {s : TokenKind × Text} (h : symbolAt? t = some s) :
    s.2.isPrefixOf t = true := by
  simpa using List.find?_some h

theorem symbol_ne_nil : ∀ s ∈ symbols, s.2 ≠ [] := by decide

theorem symbol_ne_eof : ∀ s ∈ symbols, s.1 ≠ .eof := by decide

theorem splitLiteral_append {inside : Option Opening} {position : Nat} {t front back : Text}
    (h : splitLiteral inside position t = .ok (front, back)) : front ++ back = t := by
  fun_induction splitLiteral inside position t generalizing front back with
  | case1 => simp_all
  | case2 => simp at h
  | case3 o position c rest ih =>
    cases hr : splitLiteral (some o) (position + 2) rest with
    | error e => simp [hr, Except.map] at h
    | ok p =>
      simp only [hr, Except.map, Except.ok.injEq, Prod.mk.injEq] at h
      simp [← h.1, ← h.2, ih hr]
  | case4 o position c rest hc ih =>
    cases hr : splitLiteral (if c = o.mark then none else some o) (position + 1) rest with
    | error e => simp [hr, Except.map] at h
    | ok p =>
      simp only [hr, Except.map, Except.ok.injEq, Prod.mk.injEq] at h
      simp [← h.1, ← h.2, ih hr]
  | case5 => simp_all
  | case6 position c rest hc ih =>
    cases hr : splitLiteral (if isQuote c then some ⟨c, position⟩ else none) (position + 1) rest with
    | error e => simp [hr, Except.map] at h
    | ok p =>
      simp only [hr, Except.map, Except.ok.injEq, Prod.mk.injEq] at h
      simp [← h.1, ← h.2, ih hr]

/-- A literal that starts at something that is neither blank nor a symbol is not empty. -/
theorem splitLiteral_length {position : Nat} {c : Char} {rest front back : Text}
    (hb : isBlank c = false) (hs : symbolAt? (c :: rest) = none)
    (h : splitLiteral none position (c :: rest) = .ok (front, back)) :
    back.length ≤ rest.length := by
  rw [splitLiteral] at h
  simp only [hb, hs, Option.isSome_none, Bool.or_self, Bool.false_eq_true, if_false] at h
  cases hr : splitLiteral (if isQuote c then some ⟨c, position⟩ else none) (position + 1) rest with
  | error e => simp [hr, Except.map] at h
  | ok p =>
    simp only [hr, Except.map, Except.ok.injEq, Prod.mk.injEq] at h
    have := splitLiteral_append hr
    rw [← h.2, ← this]
    simp

theorem dropWhile_length_le {α : Type} (p : α → Bool) (l : List α) :
    (l.dropWhile p).length ≤ l.length := by
  induction l with
  | nil => simp
  | cons a l ih =>
    rw [List.dropWhile_cons]
    split
    · simp only [List.length_cons]; omega
    · exact Nat.le_refl _

theorem scan_length {position : Nat} {t back : Text} {token : Token}
    (h : scan position t = .ok (token, back)) (hk : token.kind ≠ .eof) :
    back.length < t.length := by
  unfold scan at h
  have hle := dropWhile_length_le isBlank t
  cases hbody : t.dropWhile isBlank with
  | nil => simp [hbody] at h; simp [← h.1] at hk
  | cons c rest =>
    rw [hbody] at hle h
    have hc : isBlank c = false := by
      have := List.head?_dropWhile_not isBlank t
      rw [hbody] at this
      simpa using this
    simp only [List.isEmpty_cons, Bool.false_eq_true, if_false] at h
    cases hs : symbolAt? (c :: rest) with
    | some s =>
      have hn := symbol_ne_nil s (symbolAt?_mem hs)
      simp only [hs, Except.ok.injEq, Prod.mk.injEq] at h
      rw [← h.2]
      have : 0 < s.2.length := List.length_pos_iff.mpr hn
      simp only [List.length_drop, List.length_cons] at *
      omega
    | none =>
      simp only [hs] at h
      cases hl : splitLiteral none (position + (t.takeWhile isBlank).length) (c :: rest) with
      | error e => simp [hl] at h
      | ok p =>
        simp only [hl, Except.ok.injEq, Prod.mk.injEq] at h
        have := splitLiteral_length hc hs hl
        rw [← h.2]
        simp only [List.length_cons] at hle
        omega

end Conditions.Expression
