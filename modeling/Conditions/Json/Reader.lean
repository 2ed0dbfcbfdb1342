import Conditions.Json.Value

/-!
# Reading JSON

A value is read from the front of a text. Every step takes at least one character, so as many steps
as the text has characters are enough.
-/

set_option autoImplicit false

namespace Conditions.Json

def isSpace (c : Char) : Bool := c == ' ' || c == '\t' || c == '\n' || c == '\r'

def skipSpace (t : Text) : Text := t.dropWhile isSpace

def hexValue? (c : Char) : Option Nat :=
  if '0' ≤ c && c ≤ '9' then some (c.toNat - 48)
  else if 'a' ≤ c && c ≤ 'f' then some (c.toNat - 87)
  else if 'A' ≤ c && c ≤ 'F' then some (c.toNat - 55)
  else none

def unit? : Text → Option (Nat × Text)
  | a :: b :: c :: d :: rest => do
    let a ← hexValue? a
    let b ← hexValue? b
    let c ← hexValue? c
    let d ← hexValue? d
    pure (((a * 16 + b) * 16 + c) * 16 + d, rest)
  | _ => none

def simpleEscape? : Char → Option Char
  | '"' => some '"'
  | '\\' => some '\\'
  | '/' => some '/'
  | 'n' => some '\n'
  | 'r' => some '\r'
  | 't' => some '\t'
  | 'b' => some '\x08'
  | 'f' => some '\x0c'
  | _ => none

def escape? : Text → Option (Char × Text)
  | 'u' :: rest => do
    let (n, rest) ← unit? rest
    if 0xd800 ≤ n && n < 0xdc00 then
      match rest with
      | '\\' :: 'u' :: low =>
        let (m, rest) ← unit? low
        if 0xdc00 ≤ m && m < 0xe000 then
          pure (Char.ofNat (0x10000 + (n - 0xd800) * 0x400 + (m - 0xdc00)), rest)
        else none
      | _ => none
    else pure (Char.ofNat n, rest)
  | c :: rest => (simpleEscape? c).map (·, rest)
  | [] => none

def readChars? : Nat → Text → Option (Text × Text)
  | 0, _ => none
  | _, [] => none
  | _, '"' :: rest => some ([], rest)
  | fuel + 1, '\\' :: rest => do
    let (c, rest) ← escape? rest
    let (chars, rest) ← readChars? fuel rest
    pure (c :: chars, rest)
  | fuel + 1, c :: rest => do
    let (chars, rest) ← readChars? fuel rest
    pure (c :: chars, rest)

def isNumberChar (c : Char) : Bool :=
  c.isDigit || c == '-' || c == '+' || c == '.' || c == 'e' || c == 'E'

def number? (t : Text) : Option Json := do
  let d ← Decimal.read? t
  if t.any fun c => c == '.' || c == 'e' || c == 'E' then pure (.float (.ofDecimal d))
  else pure (.int (if d.negative then -(d.units : Int) else d.units))

mutual

def readValue? : Nat → Text → Option (Json × Text)
  | 0, _ => none
  | fuel + 1, t =>
    match skipSpace t with
    | 'n' :: 'u' :: 'l' :: 'l' :: rest => some (.null, rest)
    | 't' :: 'r' :: 'u' :: 'e' :: rest => some (.bool true, rest)
    | 'f' :: 'a' :: 'l' :: 's' :: 'e' :: rest => some (.bool false, rest)
    | '"' :: rest => do
      let (chars, rest) ← readChars? fuel rest
      pure (.string (String.ofList chars), rest)
    | '[' :: rest =>
      match skipSpace rest with
      | ']' :: rest => some (.array [], rest)
      | rest => do
        let (elements, rest) ← readElements? fuel rest
        pure (.array elements, rest)
    | '\x7b' :: rest =>
      match skipSpace rest with
      | '\x7d' :: rest => some (.object [], rest)
      | rest => do
        let (members, rest) ← readMembers? fuel rest
        pure (.object members, rest)
    | rest => do
      let j ← number? (rest.takeWhile isNumberChar)
      pure (j, rest.dropWhile isNumberChar)

def readElements? : Nat → Text → Option (List Json × Text)
  | 0, _ => none
  | fuel + 1, t => do
    let (j, rest) ← readValue? fuel t
    match skipSpace rest with
    | ',' :: rest =>
      let (elements, rest) ← readElements? fuel rest
      pure (j :: elements, rest)
    | ']' :: rest => pure ([j], rest)
    | _ => none

def readMembers? : Nat → Text → Option (List (String × Json) × Text)
  | 0, _ => none
  | fuel + 1, t =>
    match skipSpace t with
    | '"' :: rest => do
      let (key, rest) ← readChars? fuel rest
      match skipSpace rest with
      | ':' :: rest =>
        let (j, rest) ← readValue? fuel rest
        match skipSpace rest with
        | ',' :: rest =>
          let (members, rest) ← readMembers? fuel rest
          pure ((String.ofList key, j) :: members, rest)
        | '\x7d' :: rest => pure ([(String.ofList key, j)], rest)
        | _ => none
      | _ => none
    | _ => none

end

def read? (s : String) : Option Json := do
  let t := s.toList
  let (j, rest) ← readValue? (t.length + 1) t
  if (skipSpace rest).isEmpty then pure j else none

end Conditions.Json
