import Conclave.Word.Matrix

/-!
The block hash: BLAKE3 without a key, cut to 32 bytes. The message falls into chunks of 1024 bytes;
their chaining values meet pairwise in a binary tree whose left subtrees are full.
-/

namespace Conclave.Hash

open Word (Row Matrix)

/-- Eight words that carry the state from one block to the next. -/
structure Chaining where
  low : Row
  high : Row
deriving DecidableEq

def initial : Chaining :=
  ⟨⟨0x6a09e667, 0xbb67ae85, 0x3c6ef372, 0xa54ff53a⟩,
   ⟨0x510e527f, 0x9b05688c, 0x1f83d9ab, 0x5be0cd19⟩⟩

def mix (s : Matrix) (x y : Row) : Matrix :=
  let top := s.top + s.upper + x
  let bottom := (s.bottom ^^^ top).map (Word.rotateRight 16)
  let lower := s.lower + bottom
  let upper := (s.upper ^^^ lower).map (Word.rotateRight 12)
  let top := top + upper + y
  let bottom := (bottom ^^^ top).map (Word.rotateRight 8)
  let lower := lower + bottom
  ⟨top, (upper ^^^ lower).map (Word.rotateRight 7), lower, bottom⟩

def round (s m : Matrix) : Matrix :=
  let s := mix s ⟨m.top.a, m.top.c, m.upper.a, m.upper.c⟩ ⟨m.top.b, m.top.d, m.upper.b, m.upper.d⟩
  (mix s.skew ⟨m.lower.a, m.lower.c, m.bottom.a, m.bottom.c⟩
    ⟨m.lower.b, m.lower.d, m.bottom.b, m.bottom.d⟩).unskew

/-- The order in which the next round reads the message words. -/
def permute (m : Matrix) : Matrix :=
  ⟨⟨m.top.c, m.upper.c, m.top.d, m.lower.c⟩, ⟨m.upper.d, m.top.a, m.upper.a, m.bottom.b⟩,
   ⟨m.top.b, m.lower.d, m.bottom.a, m.upper.b⟩, ⟨m.lower.b, m.bottom.c, m.bottom.d, m.lower.a⟩⟩

def rounds : Nat → Matrix → Matrix → Matrix
  | 0, s, _ => s
  | n + 1, s, m => rounds n (round s m) (permute m)

/-- A block about to be compressed: a chunk's last block or a pair of subtrees. -/
structure Node where
  chaining : Chaining
  block : Matrix
  counter : Nat
  length : Nat
  flags : UInt32

def chunkStart : UInt32 := 1
def chunkEnd : UInt32 := 2
def parentFlag : UInt32 := 4
def rootFlag : UInt32 := 8

def Node.compress (n : Node) : Chaining :=
  let bottom : Row :=
    ⟨n.counter.toUInt32, (n.counter / 4294967296).toUInt32, n.length.toUInt32, n.flags⟩
  let s := rounds 7 ⟨n.chaining.low, n.chaining.high, initial.low, bottom⟩ n.block
  ⟨s.top ^^^ s.lower, s.upper ^^^ s.bottom⟩

def Node.root (n : Node) : List UInt8 :=
  let c := { n with flags := n.flags ||| rootFlag, counter := 0 }.compress
  (c.low.toList ++ c.high.toList).flatMap Word.toBytes

/-- Consecutive groups of `size` elements; the last may be shorter. -/
def groups {α : Type} (size : Nat) (xs : List α) : List (List α) :=
  go xs.length xs
where
  go : Nat → List α → List (List α)
    | 0, _ => []
    | fuel + 1, xs => if xs.isEmpty then [] else xs.take size :: go fuel (xs.drop size)

def blockNode (counter : Nat) (c : Chaining) (flags : UInt32) (bytes : List UInt8) : Node :=
  ⟨c, Matrix.ofList (Word.words bytes), counter, bytes.length, flags⟩

/-- The node of chunk `counter`, whose earlier blocks have been compressed into `c`. -/
def chunkNode (counter : Nat) (c : Chaining) (flags : UInt32) : List (List UInt8) → Node
  | [] => blockNode counter c (flags ||| chunkEnd) []
  | [block] => blockNode counter c (flags ||| chunkEnd) block
  | block :: rest => chunkNode counter (blockNode counter c flags block).compress 0 rest

def parentNode (left right : Chaining) : Node :=
  ⟨initial, ⟨left.low, left.high, right.low, right.high⟩, 0, 64, parentFlag⟩

/-- Adds the value of the last of `count` chunks and joins every pair of full subtrees. -/
def push : List Chaining → Chaining → (count : Nat) → List Chaining
  | left :: stack, right, count =>
    if count % 2 = 0 then push stack (parentNode left right).compress (count / 2)
    else right :: left :: stack
  | [], c, _ => [c]

/-- The root of the tree over the remaining chunks, with the full subtrees before them stacked. -/
def tree (stack : List Chaining) (index : Nat) : List (List UInt8) → Node
  | [] => chunkNode index initial chunkStart []
  | [chunk] =>
    stack.foldl (fun right left => parentNode left right.compress)
      (chunkNode index initial chunkStart (groups 64 chunk))
  | chunk :: rest =>
    let c := (chunkNode index initial chunkStart (groups 64 chunk)).compress
    tree (push stack c (index + 1)) (index + 1) rest

/-- The 32-byte digest. -/
def digest (bytes : List UInt8) : List UInt8 := (tree [] 0 (groups 1024 bytes)).root

@[simp]
theorem length_toBytes (w : UInt32) : (Word.toBytes w).length = 4 := rfl

@[simp]
theorem length_digest (bytes : List UInt8) : (digest bytes).length = 32 := by
  simp [digest, Node.root, Row.toList]

end Conclave.Hash
