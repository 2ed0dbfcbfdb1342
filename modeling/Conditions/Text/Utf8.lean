import Conditions.Text.Basic

/-!
# UTF-8

Bytes are decoded strictly: no overlong forms, no surrogates, nothing beyond the last code point.
The first offence is told with the bytes that make it up.
-/

set_option autoImplicit false

namespace Conditions.Text

inductive Offence where
  | startByte
  | continuation
  | endOfData
  deriving DecidableEq, Repr

structure Utf8Fault where
  offence : Offence
  position : Nat
  count : Nat
  byte : Nat
  deriving DecidableEq, Repr

def Offence.reason : Offence → String
  | .startByte => "invalid start byte"
  | .continuation => "invalid continuation byte"
  | .endOfData => "unexpected end of data"

def Utf8Fault.message (f : Utf8Fault) : String :=
  let place :=
    if f.count = 1 then s!"byte 0x{String.ofList (hexByte f.byte)} in position {f.position}"
    else s!"bytes in position {f.position}-{f.position + f.count - 1}"
  s!"'utf-8' codec can't decode {place}: {f.offence.reason}"
where
  hexByte (n : Nat) : List Char :=
    let digit := fun d => if d < 10 then Char.ofNat (48 + d) else Char.ofNat (87 + d)
    [digit (n / 16), digit (n % 16)]

def isContinuation (b : Nat) : Bool := b / 64 == 2

def sequenceLength (b : Nat) : Nat :=
  if b < 0x80 then 1
  else if b < 0xc2 then 0
  else if b < 0xe0 then 2
  else if b < 0xf0 then 3
  else if b < 0xf5 then 4
  else 0

def allowsSecond (b second : Nat) : Bool :=
  isContinuation second &&
    (b != 0xe0 || 0xa0 ≤ second) && (b != 0xed || second < 0xa0) &&
    (b != 0xf0 || 0x90 ≤ second) && (b != 0xf4 || second < 0x90)

def fitting (b wanted : Nat) (rest : List Nat) : Nat :=
  match rest with
  | [] => 0
  | second :: more =>
    if wanted = 0 || !allowsSecond b second then 0
    else 1 + ((more.take (wanted - 1)).takeWhile isContinuation).length

def assemble (b : Nat) (behind : List Nat) : Nat :=
  let lead := match behind.length with
    | 0 => b
    | 1 => b % 0x20
    | 2 => b % 0x10
    | _ => b % 0x08
  behind.foldl (fun n c => n * 64 + c % 64) lead

def decodeFrom : Nat → Nat → List Nat → Except Utf8Fault Text
  | _, _, [] => .ok []
  | position, skip + 1, _ :: rest => decodeFrom (position + 1) skip rest
  | position, 0, b :: rest =>
    match sequenceLength b with
    | 0 => .error ⟨.startByte, position, 1, b⟩
    | length + 1 =>
      let fit := fitting b length rest
      if fit = length then
        (decodeFrom (position + 1) length rest).map (Char.ofNat (assemble b (rest.take length)) :: ·)
      else if fit = rest.length then .error ⟨.endOfData, position, fit + 1, b⟩
      else .error ⟨.continuation, position, fit + 1, b⟩

def decodeUtf8 (bytes : List Nat) : Except Utf8Fault Text := decodeFrom 0 0 bytes

def encodeUtf8 (t : Text) : List Nat :=
  (String.ofList t).toUTF8.toList.map UInt8.toNat

end Conditions.Text
