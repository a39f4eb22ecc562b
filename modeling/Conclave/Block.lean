import Conclave.Rid

/-!
Blocks and what attests to them. Transactions and signatures are opaque bytes here.
-/

namespace Conclave

abbrev Bytes := List UInt8

/-- A signature together with the identity of its signer. -/
structure Signature where
  signer : Bytes
  data : Bytes
deriving DecidableEq, Inhabited

/-- The first eight hexadecimal digits of the signer. -/
def Signature.describe (s : Signature) : String :=
  "Signature(by " ++ Hex.encode (s.signer.take 4) ++ ")"

/-- `parent` is the block that this one extends; `timestamp` counts milliseconds. -/
structure Header where
  rid : Rid
  parent : Rid
  height : Nat
  timestamp : Nat
deriving DecidableEq, Inhabited

/-- A block without the signatures that commit it. -/
structure Block where
  header : Header
  transactions : List Bytes
deriving DecidableEq, Inhabited

namespace Block

def rid (b : Block) : Rid := b.header.rid

def height (b : Block) : Nat := b.header.height

def describe (b : Block) : String :=
  Text.record "BlockData"
    [("header", Text.record "BlockHeader"
      [("block_rid", b.header.rid.short), ("prev_block_rid", b.header.parent.short),
        ("height", toString b.header.height), ("timestamp", toString b.header.timestamp)]),
      ("transactions", Text.list (Text.list fun byte => toString byte.toNat) b.transactions)]

end Block

structure Witness where
  signatures : List Signature
deriving DecidableEq, Inhabited

/-- A committed block. -/
structure SealedBlock where
  block : Block
  witness : Witness
deriving DecidableEq, Inhabited

def SealedBlock.rid (b : SealedBlock) : Rid := b.block.rid

end Conclave
