import Conclave.Pipeline

/-!
The tasks that a validator gives to its pipeline: operations on the block at hand, answers to peers,
and fast sync.
-/

namespace Conclave

inductive Task where
  | build
  | load (block : Block)
  /-- A committed block fetched from a peer for the own height. -/
  | add (block : SealedBlock) (height : Nat)
  | commit (block : Block) (signatures : List (Option Signature))
  | verify (sender : Nat) (rid : Rid) (signature : Signature)
  | serveBlock (receiver height : Nat)
  | serveSignature (receiver : Nat) (rid : Rid)
  | chainHeight
  | fastAdd (block : SealedBlock)
deriving DecidableEq

namespace Task

def job : Task → Job
  | build => .build
  | load block => .load block
  | add block _ => .add block
  | commit _ signatures => .commit signatures
  | verify _ _ signature => .verify signature
  | serveBlock _ height => .blockAt height true
  | serveSignature _ rid => .signatureOf rid
  | chainHeight => .lastHeight
  | fastAdd block => .add block

/-- Operations change the block at hand, so there is at most one at a time. -/
def isOperation : Task → Bool
  | build | load _ | add _ _ | commit _ _ => true
  | _ => false

/-- Fast sync waits for the answers to its own tasks. -/
def isFastSync : Task → Bool
  | chainHeight | fastAdd _ => true
  | _ => false

end Task

instance : Submission Task := ⟨Task.job⟩

end Conclave
