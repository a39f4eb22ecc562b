import Conclave.Rid

/-!
The one thing a validator should be doing now.
-/

namespace Conclave

inductive Intent where
  | doNothing
  | commitBlock
  | buildBlock
  | fetchBlockAtHeight (height : Nat)
  | fetchUnfinishedBlock (rid : Rid)
  | fetchCommitSignatures (rid : Rid) (nodes : List Nat)
deriving DecidableEq

namespace Intent

instance : Inhabited Intent := ⟨doNothing⟩

def isWaitingFor (i : Intent) (rid : Rid) : Bool := i = .fetchUnfinishedBlock rid

def isFetchingHeight (i : Intent) (height : Nat) : Bool := i = .fetchBlockAtHeight height

def summary : Intent → String
  | .doNothing => "DNI"
  | .commitBlock => "CBI"
  | .buildBlock => "BBI"
  | .fetchBlockAtHeight height => s!"FBAH({height})"
  | .fetchUnfinishedBlock rid => "FUB(" ++ rid.short ++ ")"
  | .fetchCommitSignatures rid nodes =>
    "FCS(" ++ rid.short ++ ", " ++ Text.list toString nodes ++ ")"

def describe : Intent → String
  | .doNothing => "DoNothing"
  | .commitBlock => "CommitBlock"
  | .buildBlock => "BuildBlock"
  | .fetchBlockAtHeight height => Text.record "FetchBlockAtHeight" [("height", toString height)]
  | .fetchUnfinishedBlock rid => Text.record "FetchUnfinishedBlock" [("block_rid", rid.short)]
  | .fetchCommitSignatures rid nodes =>
    Text.record "FetchCommitSignatures"
      [("block_rid", rid.short), ("nodes", Text.list toString nodes)]

end Intent

end Conclave
