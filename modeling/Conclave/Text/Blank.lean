/-!
Blank characters of all scripts, and trimming them off.
-/

namespace Conclave.Text

def isBlank (c : Char) : Bool :=
  c.isWhitespace || c.toNat ∈ [0xb, 0xc, 0x85, 0xa0, 0x1680, 0x2028, 0x2029, 0x202f, 0x205f, 0x3000]
    || (0x2000 ≤ c.toNat && c.toNat ≤ 0x200a)

/-- The text without the blanks at both ends. -/
def trim (cs : List Char) : List Char :=
  ((cs.dropWhile isBlank).reverse.dropWhile isBlank).reverse

end Conclave.Text
