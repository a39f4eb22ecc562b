/-!
Unsigned 64-bit quantities are natural numbers up to `Word.maxUnsigned` and signed ones integers up
to `Word.maxSigned`; sums that may leave the range are checked where the range matters.
-/

namespace Conclave.Word

def maxUnsigned : Nat := 18446744073709551615

def maxSigned : Int := 9223372036854775807

def minSigned : Int := -9223372036854775808

/-- The nearest value in the unsigned range. -/
def saturate (n : Nat) : Nat := min n maxUnsigned

/-- The residue in the unsigned range. -/
def wrap (n : Nat) : Nat := n % (maxUnsigned + 1)

/-- The signed value with the same 64 bits. -/
def toSigned (n : Nat) : Int := (n : Int).bmod 18446744073709551616

/-- The `count` low bytes of `n`, least significant first. -/
def littleEndian : (count : Nat) → (n : Nat) → List UInt8
  | 0, _ => []
  | count + 1, n => UInt8.ofNat n :: littleEndian count (n / 256)

@[simp]
theorem length_littleEndian (count n : Nat) : (littleEndian count n).length = count := by
  induction count generalizing n with
  | zero => rfl
  | succ count ih => simp [littleEndian, ih]

end Conclave.Word
