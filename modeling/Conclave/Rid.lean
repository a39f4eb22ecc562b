import Conclave.Hash
import Conclave.Hex
import Conclave.Text

/-!
References to blocks: 32 bytes, the digest of what they refer to.
-/

namespace Conclave

structure Rid where
  bytes : List UInt8
  length_eq : bytes.length = 32
deriving DecidableEq

namespace Rid

/-- The parent of the first block. -/
def zero : Rid := ⟨List.replicate 32 0, by simp⟩

instance : Inhabited Rid := ⟨zero⟩

def ofDigest (bytes : List UInt8) : Rid := ⟨Hash.digest bytes, Hash.length_digest bytes⟩

inductive ParseError where
  | invalidHex (cause : Hex.Error)
  | invalidLength (bytes : Nat)
deriving DecidableEq, Repr

def ParseError.message : ParseError → String
  | .invalidHex .oddLength => "Invalid hex: Odd number of digits"
  | .invalidHex (.badDigit byte index) =>
    "Invalid hex: Invalid character " ++ Text.quotedChar (Char.ofNat byte.toNat) ++
      " at position " ++ toString index
  | .invalidLength bytes => s!"Invalid length: expected 32 bytes, got {bytes}"

def toHex (r : Rid) : String := Hex.encode r.bytes

def ofHex (s : String) : Except ParseError Rid :=
  match Hex.decode s with
  | .error e => .error (.invalidHex e)
  | .ok bytes =>
    if h : bytes.length = 32 then .ok ⟨bytes, h⟩ else .error (.invalidLength bytes.length)

/-- The short form of reports: the first eight digits. -/
def short (r : Rid) : String := "BlockRid(" ++ Hex.encode (r.bytes.take 4) ++ "..)"

/-- Byte by byte, the first difference decides. -/
def compare (a b : Rid) : Ordering :=
  if a.bytes < b.bytes then .lt else if a.bytes = b.bytes then .eq else .gt

end Rid

end Conclave
