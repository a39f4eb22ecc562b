/-!
Hexadecimal text of bytes: two digits a byte, high half first, written in lower case and read in
either case.
-/

namespace Conclave.Hex

inductive Error where
  | oddLength
  /-- The first byte of the text that is no digit, and its offset. -/
  | badDigit (byte : UInt8) (index : Nat)
deriving DecidableEq, Repr

def digit (n : Nat) : Char :=
  if n < 10 then Char.ofNat ('0'.toNat + n) else Char.ofNat ('a'.toNat + (n - 10))

def value? (c : Char) : Option Nat :=
  if '0' ≤ c ∧ c ≤ '9' then some (c.toNat - '0'.toNat)
  else if 'a' ≤ c ∧ c ≤ 'f' then some (c.toNat - 'a'.toNat + 10)
  else if 'A' ≤ c ∧ c ≤ 'F' then some (c.toNat - 'A'.toNat + 10)
  else none

def pair (b : UInt8) : List Char := [digit (b.toNat / 16), digit (b.toNat % 16)]

def encode (bytes : List UInt8) : String := String.ofList (bytes.flatMap pair)

def leadByte (c : Char) : UInt8 := (String.utf8EncodeChar c).headD 0

/-- The digits from offset `index` on. Every earlier character is a digit, hence one byte long. -/
def digits (index : Nat) : List Char → Except Error (List Nat)
  | [] => .ok []
  | c :: cs =>
    match value? c with
    | none => .error (.badDigit (leadByte c) index)
    | some d => (digits (index + 1) cs).map (d :: ·)

def join : List Nat → List UInt8
  | high :: low :: rest => UInt8.ofNat (16 * high + low) :: join rest
  | _ => []

/-- The length is judged before any digit. -/
def decode (s : String) : Except Error (List UInt8) :=
  if s.utf8ByteSize % 2 = 1 then .error .oddLength else (digits 0 s.toList).map join

end Conclave.Hex
