import Conclave.Ledger.Error
import Conclave.Word

/-!
The committed blocks of one validator.
-/

namespace Conclave

/-- The bytes whose digest refers to a block: every transaction follows its length. -/
def contentBytes (parent : Rid) (height timestamp : Nat) (txs : List Bytes) : Bytes :=
  parent.bytes ++ Word.littleEndian 8 height ++ Word.littleEndian 8 timestamp ++
    txs.flatMap fun tx => Word.littleEndian 8 tx.length ++ tx

def contentRid (parent : Rid) (height timestamp : Nat) (txs : List Bytes) : Rid :=
  .ofDigest (contentBytes parent height timestamp txs)

def Block.contentRid (b : Block) : Rid :=
  Conclave.contentRid b.header.parent b.header.height b.header.timestamp b.transactions

structure Chain where
  /-- Lowest first; the first one has height one. -/
  blocks : List SealedBlock
  /-- The own signatures over committed blocks, newest first. -/
  signatures : List (Rid × Signature)
deriving DecidableEq

namespace Chain

def empty : Chain := ⟨[], []⟩

def height (c : Chain) : Nat := c.blocks.length

def lastRid (c : Chain) : Rid :=
  match c.blocks.getLast? with
  | none => .zero
  | some b => b.rid

def blockAt (c : Chain) (height : Nat) : Option SealedBlock :=
  if height = 0 then none else c.blocks[height - 1]?

def rids (c : Chain) : List Rid := c.blocks.map (·.rid)

def transactions (c : Chain) : List Bytes := c.blocks.flatMap (·.block.transactions)

def signatureOf (c : Chain) (rid : Rid) : Option Signature := c.signatures.lookup rid

/-- Whether a block with this header may come next. -/
def checkExtends (c : Chain) (h : Header) : Except EngineError Unit :=
  if h.height ≠ c.height + 1 then .error (.badData (.height h.height c.height))
  else if h.parent ≠ c.lastRid then .error (.badData (.parent h.rid c.lastRid))
  else .ok ()

def append (c : Chain) (b : SealedBlock) (own : Signature) : Chain :=
  ⟨c.blocks ++ [b], (b.rid, own) :: c.signatures⟩

@[simp]
theorem height_append (c : Chain) (b : SealedBlock) (own : Signature) :
    (c.append b own).height = c.height + 1 := by
  simp [append, height]

theorem blockAt_append_of_le {c : Chain} {height : Nat} (h : height ≤ c.height) (b : SealedBlock)
    (own : Signature) : (c.append b own).blockAt height = c.blockAt height := by
  by_cases h0 : height = 0
  · simp [blockAt, h0]
  · simp only [Chain.height] at h
    have hlt : height - 1 < c.blocks.length := by omega
    simp [blockAt, h0, append, List.getElem?_append_left hlt]

end Chain

end Conclave
