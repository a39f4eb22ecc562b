import Conclave.Block
import Conclave.NodeStatus

/-!
What validators say to each other.
-/

namespace Conclave

inductive Message where
  | status (s : NodeStatus)
  | getUnfinishedBlock (rid : Rid)
  | unfinishedBlock (block : Block)
  | getBlockAtHeight (height : Nat)
  | completeBlock (block : SealedBlock) (height : Nat)
  | getBlockSignature (rid : Rid)
  | blockSignature (rid : Rid) (signature : Signature)
deriving DecidableEq

def Message.kind : Message → String
  | .status _ => "status"
  | .getUnfinishedBlock _ => "get_unfinished_block"
  | .unfinishedBlock _ => "unfinished_block"
  | .getBlockAtHeight _ => "get_block_at_height"
  | .completeBlock .. => "complete_block"
  | .getBlockSignature _ => "get_block_signature"
  | .blockSignature .. => "block_signature"

end Conclave
