import Conclave.Intent
import Conclave.NodeStatus

/-!
What happens inside a status manager, and why it turns an input down.
-/

namespace Conclave

inductive Rejection where
  | unknownNode (node : Nat)
  | ownStatus
  | heightMismatch (own height : Nat)
  | fastForwardBehind (own target : Nat)
  | wrongCommittedBlock (rid : Rid)
  | irrelevantBlock (rid : Rid) (intent : Intent)
  | unexpectedBuiltBlock (intent : Intent)
  | notPrimary
  | wrongCommitSignature (node : Nat) (rid : Rid)
deriving DecidableEq

namespace Rejection

def message : Rejection → String
  | .unknownNode node => s!"unknown node index {node}"
  | .ownStatus => "status update for own node"
  | .heightMismatch own height => s!"height mismatch: my height {own} new height {height}"
  | .fastForwardBehind own target => s!"cannot fast forward from {own} back to {target}"
  | .wrongCommittedBlock rid => "committed block with wrong rid " ++ rid.short
  | .irrelevantBlock rid intent =>
    "received irrelevant block " ++ rid.short ++ ", intent was " ++ intent.summary
  | .unexpectedBuiltBlock intent =>
    "built block while not requesting it, intent was " ++ intent.summary
  | .notPrimary => "built a block while not primary"
  | .wrongCommitSignature node rid => s!"wrong commit signature from node {node} for " ++ rid.short

def describe : Rejection → String
  | .unknownNode node => Text.record "UnknownNode" [("node_index", toString node)]
  | .ownStatus => "OwnStatus"
  | .heightMismatch own height =>
    Text.record "HeightMismatch" [("my_height", toString own), ("height", toString height)]
  | .fastForwardBehind own target =>
    Text.record "FastForwardBehind" [("my_height", toString own), ("target", toString target)]
  | .wrongCommittedBlock rid => Text.record "WrongCommittedBlock" [("block_rid", rid.short)]
  | .irrelevantBlock rid intent =>
    Text.record "IrrelevantBlock" [("block_rid", rid.short), ("intent", intent.describe)]
  | .unexpectedBuiltBlock intent =>
    Text.record "UnexpectedBuiltBlock" [("intent", intent.describe)]
  | .notPrimary => "NotPrimary"
  | .wrongCommitSignature node rid =>
    Text.record "WrongCommitSignature"
      [("node_index", toString node), ("block_rid", rid.short)]

end Rejection

inductive Event where
  | intentChanged (old new : Intent)
  | phaseChanged (height : Nat) (old new : Phase)
  | roundAdvanced (height round : Nat)
  | heightAdvanced (height : Nat)
  /-- `node` was seen revolting against `primary`. -/
  | revoltObserved (node primary height round : Nat)
  | rejected (cause : Rejection)
  | limitReached (iterations : Nat)
deriving DecidableEq

end Conclave
