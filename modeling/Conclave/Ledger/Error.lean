import Conclave.Block

/-!
Why an engine refuses an operation.
-/

namespace Conclave

inductive Defect where
  | height (block chain : Nat)
  | parent (rid last : Rid)
  | contents (rid : Rid)
  | emptyTransaction
  | signature (validator : Nat) (rid : Rid)
  | fewSigners (count required : Nat)
deriving DecidableEq

def Defect.message : Defect → String
  | .height block chain => s!"block height {block} does not follow {chain}"
  | .parent rid last => "block " ++ rid.toHex ++ " does not extend " ++ last.toHex
  | .contents rid => "block rid " ++ rid.toHex ++ " does not match contents"
  | .emptyTransaction => "empty transaction"
  | .signature validator rid =>
    s!"invalid signature from validator {validator} over " ++ rid.toHex
  | .fewSigners count required => s!"witness has {count} of {required} required signatures"

inductive StorageFailure where
  | load
  | build
deriving DecidableEq

def StorageFailure.message : StorageFailure → String
  | .load => "injected load failure"
  | .build => "injected build failure"

inductive EngineError where
  | alreadyClosed
  | badData (defect : Defect)
  | forceStopped
  | unknownSigner (signer : Bytes)
  | storage (failure : StorageFailure)
deriving DecidableEq

/-- A signer is named by the first four bytes of its identity. -/
def EngineError.message : EngineError → String
  | .alreadyClosed => "Engine is already closed"
  | .badData defect => "Bad data: " ++ defect.message
  | .forceStopped => "Block building was force stopped"
  | .unknownSigner signer => "Unknown signer: " ++ Hex.encode (signer.take 4)
  | .storage failure => "Storage error: " ++ failure.message

end Conclave
