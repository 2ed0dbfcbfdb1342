/-!
# Texts

A text is a list of characters, so a position in it counts characters and a slice of it is a
`take` of a `drop`. Blank characters are those that separate: the ASCII controls that move the
print position, the four information separators, and the spaces of Unicode.
-/

set_option autoImplicit false

namespace Conditions

abbrev Text := List Char

namespace Text

def isBlank (c : Char) : Bool :=
  let n := c.toNat
  (0x09 ≤ n && n ≤ 0x0d) || (0x1c ≤ n && n ≤ 0x20) || n == 0x85 || n == 0xa0 || n == 0x1680 ||
    (0x2000 ≤ n && n ≤ 0x200a) || n == 0x2028 || n == 0x2029 || n == 0x202f || n == 0x205f ||
    n == 0x3000

def strip (t : Text) : Text :=
  ((t.dropWhile isBlank).reverse.dropWhile isBlank).reverse

def holds (needle : Text) : Text → Bool
  | [] => needle.isEmpty
  | c :: rest => needle.isPrefixOf (c :: rest) || holds needle rest

def splitAt? (mark : Char) : Text → Option (Text × Text)
  | [] => none
  | c :: rest =>
    if c = mark then some ([], rest)
    else (splitAt? mark rest).map fun (front, back) => (c :: front, back)

def pieces (mark : Char) : Text → List Text
  | [] => [[]]
  | c :: rest =>
    if c = mark then [] :: pieces mark rest
    else match pieces mark rest with
      | [] => [[c]]
      | piece :: more => (c :: piece) :: more

def replace (old new : Text) (t : Text) : Text :=
  go 0 t
where
  go : Nat → Text → Text
    | _, [] => []
    | skip + 1, _ :: rest => go skip rest
    | 0, c :: rest =>
      if !old.isEmpty && old.isPrefixOf (c :: rest) then new ++ go (old.length - 1) rest
      else c :: go 0 rest

def precedes : Text → Text → Bool
  | _, [] => false
  | [], _ :: _ => true
  | a :: as, b :: bs => a.toNat < b.toNat || (a == b && precedes as bs)

end Text

end Conditions
