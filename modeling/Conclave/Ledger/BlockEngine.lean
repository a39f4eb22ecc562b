import Conclave.Ledger.Error

/-!
What a pipeline asks of the engine that stores and executes blocks. A builder is a block that is not
committed yet, with the signatures collected for it.
-/

namespace Conclave

/-- The circumstances of a build: the block size, the time in milliseconds, and whether the request
to give up is seen after so many transactions. -/
structure BuildOrder where
  limit : Nat
  stop : Nat → Bool
  now : Nat

class BlockBuilder (B : Type) where
  block : B → Block
  /-- The own signature over the block. -/
  signature : B → Signature
  /-- Adds a peer's signature to the witness. -/
  applySignature : B → Signature → Except EngineError B
  witness : B → Witness

class BlockEngine (E : Type) (B : outParam Type) [BlockBuilder B] where
  /-- Checks a block that somebody else built. -/
  load : E → Block → Except EngineError B × E
  build : E → BuildOrder → Except EngineError B × E
  blockAt : E → (height : Nat) → (transactions : Bool) → Except EngineError (Option SealedBlock)
  /-- The own signature over a committed block. -/
  signatureOf : E → Rid → Except EngineError (Option Signature)
  /-- `none` for an empty chain. -/
  lastHeight : E → Except EngineError (Option Nat)
  /-- Gives the transactions of an abandoned builder back to the queue. -/
  retryTaken : E → E
  close : E → E
  /-- A failed commit rolls the builder back. -/
  commit : E → B → Witness → Except EngineError Unit × E
  rollback : E → B → E

/-- Adds the signatures of other signers up to the first bad one. -/
def BlockBuilder.collect {B : Type} [BlockBuilder B] (b : B) :
    List Signature → B × Except EngineError Unit
  | [] => (b, .ok ())
  | s :: rest =>
    if s.signer = (signature b).signer then collect b rest
    else
      match applySignature b s with
      | .error e => (b, .error e)
      | .ok b => collect b rest

end Conclave
