/-!
Four rows of four 32-bit words, mixed column by column and then diagonal by diagonal. The stream
cipher behind random choices and the block hash share this shape.
-/

namespace Conclave.Word

def rotateRight (n x : UInt32) : UInt32 := (x >>> n) ||| (x <<< (32 - n))

def rotateLeft (n x : UInt32) : UInt32 := (x <<< n) ||| (x >>> (32 - n))

/-- Four words; the fields are the columns. -/
structure Row where
  a : UInt32
  b : UInt32
  c : UInt32
  d : UInt32
deriving DecidableEq, Inhabited

namespace Row

def toList (r : Row) : List UInt32 := [r.a, r.b, r.c, r.d]

def zipWith (f : UInt32 → UInt32 → UInt32) (r s : Row) : Row :=
  ⟨f r.a s.a, f r.b s.b, f r.c s.c, f r.d s.d⟩

def map (f : UInt32 → UInt32) (r : Row) : Row := ⟨f r.a, f r.b, f r.c, f r.d⟩

/-- Shifts every word one column to the left. -/
def rotate (r : Row) : Row := ⟨r.b, r.c, r.d, r.a⟩

instance : Add Row := ⟨zipWith (· + ·)⟩

instance : XorOp Row := ⟨zipWith (· ^^^ ·)⟩

end Row

structure Matrix where
  top : Row
  upper : Row
  lower : Row
  bottom : Row
deriving DecidableEq, Inhabited

namespace Matrix

def toList (m : Matrix) : List UInt32 :=
  m.top.toList ++ m.upper.toList ++ m.lower.toList ++ m.bottom.toList

/-- Words beyond the list are zero. -/
def ofList (ws : List UInt32) : Matrix :=
  let row i : Row := ⟨ws.getD i 0, ws.getD (i + 1) 0, ws.getD (i + 2) 0, ws.getD (i + 3) 0⟩
  ⟨row 0, row 4, row 8, row 12⟩

instance : Add Matrix :=
  ⟨fun m k => ⟨m.top + k.top, m.upper + k.upper, m.lower + k.lower, m.bottom + k.bottom⟩⟩

/-- Moves each diagonal into a column. -/
def skew (m : Matrix) : Matrix :=
  ⟨m.top, m.upper.rotate, m.lower.rotate.rotate, m.bottom.rotate.rotate.rotate⟩

/-- Moves each column back to its diagonal. -/
def unskew (m : Matrix) : Matrix :=
  ⟨m.top, m.upper.rotate.rotate.rotate, m.lower.rotate.rotate, m.bottom.rotate⟩

end Matrix

/-- The word that four bytes spell, least significant first. -/
def ofBytes (a b c d : UInt8) : UInt32 :=
  a.toUInt32 ||| (b.toUInt32 <<< 8) ||| (c.toUInt32 <<< 16) ||| (d.toUInt32 <<< 24)

def toBytes (w : UInt32) : List UInt8 :=
  [w.toUInt8, (w >>> 8).toUInt8, (w >>> 16).toUInt8, (w >>> 24).toUInt8]

/-- The words spelled by the bytes, the last one filled up with zeros. -/
def words : List UInt8 → List UInt32
  | a :: b :: c :: d :: rest => ofBytes a b c d :: words rest
  | [a, b, c] => [ofBytes a b c 0]
  | [a, b] => [ofBytes a b 0 0]
  | [a] => [ofBytes a 0 0 0]
  | [] => []

end Conclave.Word
