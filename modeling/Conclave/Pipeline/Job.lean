import Conclave.Ledger.Error

/-!
The jobs of a block pipeline and what they answer.
-/

namespace Conclave

inductive Job where
  | load (block : Block)
  | build
  /-- A complete block fetched from a peer. -/
  | add (block : SealedBlock)
  | commit (signatures : List (Option Signature))
  | verify (signature : Signature)
  | blockAt (height : Nat) (transactions : Bool)
  | signatureOf (rid : Rid)
  | lastHeight
deriving DecidableEq

namespace Job

/-- What a job answers when it succeeds. -/
def Reply : Job → Type
  | load _ => Signature
  | build => Block × Signature
  | add _ | commit _ => Unit
  | verify _ => Bool
  | blockAt _ _ => Option SealedBlock
  | signatureOf _ => Option Signature
  | lastHeight => Option Nat

def isAdd : Job → Bool
  | add _ => true
  | _ => false

end Job

inductive PipelineError where
  | engine (cause : EngineError)
  /-- The pipeline was stopped before the job ran. -/
  | closed
  | noPendingBlock
deriving DecidableEq

namespace PipelineError

def message : PipelineError → String
  | engine cause => cause.message
  | closed => "Block pipeline is closed"
  | noPendingBlock => "No pending block to commit"

/-- Whether a shutdown is the cause. -/
def isClosed (e : PipelineError) : Bool := e = closed ∨ e = engine .alreadyClosed

end PipelineError

end Conclave
