import Conclave.Ledger.BlockEngine
import Conclave.Ledger.Chain
import Conclave.Ledger.Keyring
import Conclave.Ledger.TxQueue
import Conclave.Quorum

/-!
The engine of validator `me` of `n`, in memory: a chain, a queue of transactions, and the
transactions taken from the queue by the block under construction.
-/

namespace Conclave

structure Builder (n : Nat) where
  keys : Keyring n
  block : Block
  signature : Signature
  /-- At most one verified signature per validator. -/
  collected : Table n (Option Signature)

structure Engine (n : Nat) where
  me : Fin n
  keys : Keyring n
  chain : Chain := .empty
  queue : TxQueue := .empty
  /-- Taken from the queue by the last own block. -/
  taken : List Bytes := []
  /-- How many of the next builds and loads fail. -/
  failBuilds : Nat := 0
  failLoads : Nat := 0
  closed : Bool := false

namespace Builder

variable {n : Nat}

def witness (b : Builder n) : Witness := ⟨b.collected.toList.filterMap id⟩

def applySignature (b : Builder n) (s : Signature) : Except EngineError (Builder n) :=
  match b.keys.verify s b.block.rid with
  | .error e => .error e
  | .ok i => .ok { b with collected := b.collected.put i (some s) }

/-- The distinct validators behind the signatures, in order of appearance. -/
def signers (b : Builder n) (seen : List (Fin n)) : List Signature →
    Except EngineError (List (Fin n))
  | [] => .ok seen
  | s :: rest =>
    match b.keys.verify s b.block.rid with
    | .error e => .error e
    | .ok i => b.signers (if i ∈ seen then seen else seen ++ [i]) rest

def checkWitness (b : Builder n) (w : Witness) : Except EngineError Unit :=
  match b.signers [] w.signatures with
  | .error e => .error e
  | .ok seen =>
    if seen.length < quorum n then .error (.badData (.fewSigners seen.length (quorum n)))
    else .ok ()

end Builder

namespace Engine

variable {n : Nat}

def builder (e : Engine n) (block : Block) : Builder n :=
  let signature := (e.keys.get e.me).sign block.rid
  ⟨e.keys, block, signature, Table.put (Vector.replicate n none) e.me (some signature)⟩

/-- What is wrong with a block that somebody else built. -/
def checkBlock (e : Engine n) (block : Block) : Except EngineError Unit := do
  e.chain.checkExtends block.header
  if block.contentRid ≠ block.rid then throw (.badData (.contents block.rid))
  if block.transactions.any List.isEmpty then throw (.badData .emptyTransaction)

def load (e : Engine n) (block : Block) : Except EngineError (Builder n) × Engine n :=
  if e.closed then (.error .alreadyClosed, e)
  else if 0 < e.failLoads then
    (.error (.storage .load), { e with failLoads := e.failLoads - 1 })
  else ((e.checkBlock block).map fun _ => e.builder block, e)

/-- Moves transactions from the queue to the block until it is full or the queue is empty. Seeing
the request to give up puts all of them back. -/
def fill (order : BuildOrder) (taken queue : List Bytes) : Option (List Bytes) × List Bytes :=
  if order.limit ≤ taken.length then (some taken, queue)
  else if order.stop taken.length then (none, taken ++ queue)
  else
    match queue with
    | [] => (some taken, [])
    | tx :: rest => fill order (taken ++ [tx]) rest

/-- The block after the own chain with these transactions. -/
def nextBlock (e : Engine n) (timestamp : Nat) (txs : List Bytes) : Block :=
  let height := e.chain.height + 1
  ⟨⟨contentRid e.chain.lastRid height timestamp txs, e.chain.lastRid, height, timestamp⟩, txs⟩

def build (e : Engine n) (order : BuildOrder) : Except EngineError (Builder n) × Engine n :=
  if e.closed then (.error .alreadyClosed, e)
  else if 0 < e.failBuilds then
    (.error (.storage .build), { e with failBuilds := e.failBuilds - 1 })
  else
    match fill order [] e.queue.txs with
    | (none, queue) => (.error .forceStopped, { e with queue := ⟨queue⟩ })
    | (some txs, queue) =>
      let e := { e with queue := ⟨queue⟩, taken := txs }
      (.ok (e.builder (e.nextBlock order.now txs)), e)

def whenOpen {α : Type} (e : Engine n) (a : α) : Except EngineError α :=
  if e.closed then .error .alreadyClosed else .ok a

def blockAt (e : Engine n) (height : Nat) (transactions : Bool) :
    Except EngineError (Option SealedBlock) :=
  e.whenOpen ((e.chain.blockAt height).map fun b =>
    if transactions then b else { b with block := { b.block with transactions := [] } })

def signatureOf (e : Engine n) (rid : Rid) : Except EngineError (Option Signature) :=
  e.whenOpen (e.chain.signatureOf rid)

def lastHeight (e : Engine n) : Except EngineError (Option Nat) :=
  e.whenOpen (if 0 < e.chain.height then some e.chain.height else none)

/-- Puts the taken transactions back in front of the queue. -/
def restore (e : Engine n) : Engine n := { e with queue := e.queue.requeue e.taken, taken := [] }

def commit (e : Engine n) (b : Builder n) (w : Witness) : Except EngineError Unit × Engine n :=
  match b.checkWitness w, e.chain.checkExtends b.block.header with
  | .error cause, _ | .ok (), .error cause => (.error cause, e.restore)
  | .ok (), .ok () =>
    (.ok (), { e with
      chain := e.chain.append ⟨b.block, w⟩ b.signature
      queue := e.queue.removeIncluded b.block.transactions
      taken := [] })

instance : BlockBuilder (Builder n) where
  block := Builder.block
  signature := Builder.signature
  applySignature := Builder.applySignature
  witness := Builder.witness

instance : BlockEngine (Engine n) (Builder n) where
  load := load
  build := build
  blockAt := blockAt
  signatureOf := signatureOf
  lastHeight := lastHeight
  retryTaken := restore
  close e := { e with closed := true }
  commit := commit
  rollback e _ := e.restore

end Engine

end Conclave
