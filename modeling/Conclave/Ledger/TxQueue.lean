import Conclave.Block

/-!
Transactions waiting for a block, first in first out.
-/

namespace Conclave

structure TxQueue where
  txs : List Bytes
deriving DecidableEq, Inhabited

namespace TxQueue

def empty : TxQueue := ⟨[]⟩

def size (q : TxQueue) : Nat := q.txs.length

def push (q : TxQueue) (tx : Bytes) : TxQueue := ⟨q.txs ++ [tx]⟩

def pop (q : TxQueue) : Option (Bytes × TxQueue) :=
  match q.txs with
  | [] => none
  | tx :: rest => some (tx, ⟨rest⟩)

/-- Puts the transactions of an abandoned block back in front, in their order. -/
def requeue (q : TxQueue) (txs : List Bytes) : TxQueue := ⟨txs ++ q.txs⟩

/-- Drops what a committed block includes. -/
def removeIncluded (q : TxQueue) (included : List Bytes) : TxQueue :=
  ⟨q.txs.filter (· ∉ included)⟩

end TxQueue

end Conclave
