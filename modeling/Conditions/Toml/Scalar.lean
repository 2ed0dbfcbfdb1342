import Conditions.Json.Reader
import Conditions.Number.Integer
import Conditions.Toml.Value

/-!
# TOML scalars

Strings, numbers, dates and times, each read from the front of a text. Underscores may stand
between the digits of a number.
-/

set_option autoImplicit false

namespace Conditions.Toml

inductive Fault where
  | invalid
  | tooManyDigits (count : Nat)
  deriving DecidableEq, Repr

abbrev Reading (α : Type) := Text → Except Fault (α × Text)

def invalid {α : Type} : Except Fault α := .error .invalid

def isSpace (c : Char) : Bool := c == ' ' || c == '\t'

def isSpaceOrNewline (c : Char) : Bool := isSpace c || c == '\n'

def isControl (c : Char) : Bool := c.toNat < 0x20 || c.toNat == 0x7f

def isInline (c : Char) : Bool := !isControl c || c == '\t'

def startsWith? (front : Text) (t : Text) : Option Text :=
  if front.isPrefixOf t then some (t.drop front.length) else none

def unicodeEscape (width : Nat) : Reading Char := fun t =>
  let digits := t.take width
  if digits.length != width then invalid
  else match digits.mapM Json.hexValue? with
    | none => invalid
    | some values =>
      let n := values.foldl (fun n d => 16 * n + d) 0
      if n < 0xd800 || (0xe000 ≤ n && n < 0x110000) then .ok (Char.ofNat n, t.drop width)
      else invalid

def simpleEscape? : Char → Option Char
  | 'b' => some '\x08'
  | 't' => some '\t'
  | 'n' => some '\n'
  | 'f' => some '\x0c'
  | 'r' => some '\r'
  | '"' => some '"'
  | '\\' => some '\\'
  | _ => none

def escape (multiline : Bool) : Reading Text
  | 'u' :: rest => (unicodeEscape 4 rest).map fun (c, rest) => ([c], rest)
  | 'U' :: rest => (unicodeEscape 8 rest).map fun (c, rest) => ([c], rest)
  | c :: rest =>
    if multiline && isSpaceOrNewline c then
      match if c == '\n' then c :: rest else rest.dropWhile isSpace with
      | [] => .ok ([], [])
      | '\n' :: rest => .ok ([], rest.dropWhile isSpaceOrNewline)
      | _ => invalid
    else match simpleEscape? c with
      | some c => .ok ([c], rest)
      | none => invalid
  | [] => invalid

def basicText (multiline : Bool) : Nat → Reading Text
  | 0, _ => invalid
  | _, [] => invalid
  | fuel + 1, '"' :: rest =>
    if !multiline then .ok ([], rest)
    else match rest with
      | '"' :: '"' :: after => .ok ([], after)
      | _ => (basicText multiline fuel rest).map fun (t, rest) => ('"' :: t, rest)
  | fuel + 1, '\\' :: rest => do
    let (added, rest) ← escape multiline rest
    let (t, rest) ← basicText multiline fuel rest
    pure (added ++ t, rest)
  | fuel + 1, c :: rest =>
    if isInline c || (multiline && c == '\n') then
      (basicText multiline fuel rest).map fun (t, rest) => (c :: t, rest)
    else invalid

def literalText (multiline : Bool) : Reading Text
  | [] => invalid
  | '\'' :: rest =>
    if !multiline then .ok ([], rest)
    else match rest with
      | '\'' :: '\'' :: after => .ok ([], after)
      | _ => (literalText multiline rest).map fun (t, rest) => ('\'' :: t, rest)
  | c :: rest =>
    if isInline c || (multiline && c == '\n') then
      (literalText multiline rest).map fun (t, rest) => (c :: t, rest)
    else invalid

def trailingQuotes (quote : Char) (t rest : Text) : Text × Text :=
  let extra := (rest.takeWhile (· == quote)).take 2
  (t ++ extra, rest.drop extra.length)

def skipNewline : Text → Text
  | '\n' :: rest => rest
  | t => t

def basicString : Reading Text := fun t => basicText false (t.length + 1) t

def string : Reading Text
  | '"' :: '"' :: '"' :: rest =>
    (basicText true (rest.length + 1) (skipNewline rest)).map fun (t, rest) =>
      trailingQuotes '"' t rest
  | '"' :: rest => basicString rest
  | '\'' :: '\'' :: '\'' :: rest =>
    (literalText true (skipNewline rest)).map fun (t, rest) => trailingQuotes '\'' t rest
  | '\'' :: rest => literalText false rest
  | _ => invalid

def digitRun (p : Char → Bool) : Text → Text × Text
  | [] => ([], [])
  | '_' :: c :: rest =>
    if p c then
      let (digits, rest) := digitRun p rest
      (c :: digits, rest)
    else ([], '_' :: c :: rest)
  | c :: rest =>
    if p c then
      let (digits, rest) := digitRun p rest
      (c :: digits, rest)
    else ([], c :: rest)

def digits? (p : Char → Bool) (t : Text) : Option (Text × Text) :=
  if (t.head?.map p).getD false then some (digitRun p t) else none

def isHex (c : Char) : Bool := (Json.hexValue? c).isSome
def isOctal (c : Char) : Bool := '0' ≤ c && c ≤ '7'
def isBinary (c : Char) : Bool := c == '0' || c == '1'

def inBase (base : Nat) (digits : Text) : Nat :=
  digits.foldl (fun n c => base * n + (Json.hexValue? c).getD 0) 0

def based? : Text → Option (Nat × Text)
  | '0' :: 'x' :: rest => (digits? isHex rest).map fun (d, rest) => (inBase 16 d, rest)
  | '0' :: 'b' :: rest => (digits? isBinary rest).map fun (d, rest) => (inBase 2 d, rest)
  | '0' :: 'o' :: rest => (digits? isOctal rest).map fun (d, rest) => (inBase 8 d, rest)
  | _ => none

def fraction? : Text → Option (Text × Text)
  | '.' :: rest => digits? Char.isDigit rest
  | _ => none

def power? : Text → Option (Int × Text)
  | c :: rest =>
    if c == 'e' || c == 'E' then
      let (negative, rest) := Decimal.splitSign rest
      (digits? Char.isDigit rest).map fun (d, rest) =>
        (if negative then -(Decimal.ofDigits d : Int) else Decimal.ofDigits d, rest)
    else none
  | [] => none

def whole? : Text → Option (Text × Text)
  | '0' :: rest => some (['0'], rest)
  | t => digits? Char.isDigit t

def decimal? (t : Text) : Option (Except Fault (Value × Text)) := do
  let (negative, rest) := Decimal.splitSign t
  let (whole, rest) ← whole? rest
  match fraction? rest, power? ((fraction? rest).map (·.2) |>.getD rest) with
  | none, none =>
    let n := Decimal.ofDigits whole
    if Number.maxDigits < whole.length then pure (.error (.tooManyDigits whole.length))
    else pure (.ok (.int (if negative then -(n : Int) else n), rest))
  | part, power =>
    let (digits, rest) := part.getD ([], rest)
    let (exponent, rest) := power.getD (0, rest)
    pure (.ok (.float (.ofDecimal
      ⟨negative, Decimal.ofDigits (whole ++ digits), exponent - digits.length⟩), rest))

def special? (t : Text) : Option (Value × Text) :=
  let (negative, rest) := Decimal.splitSign t
  match startsWith? ['i', 'n', 'f'] rest, startsWith? ['n', 'a', 'n'] rest with
  | some rest, _ => some (.float (.infinity negative), rest)
  | none, some rest => some (.float .nan, rest)
  | none, none => none

def field? (width low high : Nat) (t : Text) : Option (Nat × Text) :=
  let digits := t.take width
  let n := Decimal.ofDigits digits
  if digits.length == width && digits.all Char.isDigit && low ≤ n && n ≤ high then
    some (n, t.drop width)
  else none

def mark? (c : Char) : Text → Option Text
  | d :: rest => if d = c then some rest else none
  | [] => none

def timeOfDay? (t : Text) : Option Text := do
  let (_, rest) ← field? 2 0 23 t
  let (_, rest) ← field? 2 0 59 (← mark? ':' rest)
  let (_, rest) ← field? 2 0 59 (← mark? ':' rest)
  match rest with
  | '.' :: c :: more => if c.isDigit then pure (more.dropWhile Char.isDigit) else pure rest
  | _ => pure rest

def skipOffset (t : Text) : Text :=
  match t with
  | 'Z' :: rest | 'z' :: rest => rest
  | c :: rest =>
    if c == '+' || c == '-' then
      (do
        let (_, rest) ← field? 2 0 23 rest
        let (_, rest) ← field? 2 0 59 (← mark? ':' rest)
        pure rest).getD t
    else t
  | [] => t

def daysInMonth (year month : Nat) : Nat :=
  if month = 2 then
    if year % 4 == 0 && (year % 100 != 0 || year % 400 == 0) then 29 else 28
  else if month = 4 || month = 6 || month = 9 || month = 11 then 30
  else 31

def date? (t : Text) : Option (Except Fault (Value × Text)) := do
  let (year, rest) ← field? 4 0 9999 t
  let (month, rest) ← field? 2 1 12 (← mark? '-' rest)
  let (day, rest) ← field? 2 1 31 (← mark? '-' rest)
  let (moment, rest) := match rest with
    | c :: more =>
      if c == 'T' || c == 't' || c == ' ' then
        match timeOfDay? more with
        | some rest => (Moment.dateTime, skipOffset rest)
        | none => (.date, rest)
      else (.date, rest)
    | [] => (.date, rest)
  if year = 0 || daysInMonth year month < day then pure invalid
  else pure (.ok (.moment moment, rest))

def scalar (t : Text) : Except Fault (Value × Text) :=
  match t with
  | 't' :: 'r' :: 'u' :: 'e' :: rest => .ok (.bool true, rest)
  | 'f' :: 'a' :: 'l' :: 's' :: 'e' :: rest => .ok (.bool false, rest)
  | '"' :: _ | '\'' :: _ => (string t).map fun (s, rest) => (.string (String.ofList s), rest)
  | _ =>
    match date? t, timeOfDay? t, based? t, decimal? t, special? t with
    | some answer, _, _, _, _ => answer
    | none, some rest, _, _, _ => .ok (.moment .time, rest)
    | none, none, some (n, rest), _, _ => .ok (.int n, rest)
    | none, none, none, some answer, _ => answer
    | none, none, none, none, some answer => .ok answer
    | none, none, none, none, none => invalid

end Conditions.Toml
