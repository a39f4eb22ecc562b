import Conclave.Manager.Basic

/-!
The next own status and intent, step by step until nothing is left to change.
-/

namespace Conclave.Manager

variable {n : Nat}

/-- Too few validators share the own height and some are above it. -/
def behind (m : Manager n) : Bool :=
  m.tally (·.height = m.own.height) < quorum n ∧
    (List.finRange n).any fun i => (m.statuses.get i).height > m.own.height

/-- Validators at the own height that revolt in the own round or have left it behind. -/
def revoltVotes (m : Manager n) : Nat :=
  m.tally fun s => s.height = m.own.height ∧
    ((s.round = m.own.round ∧ s.revolting) ∨ s.round > m.own.round)

/-- Validators that hold the own block. -/
def holders (m : Manager n) : Nat :=
  m.tally fun s =>
    s.holds .haveBlock m.own.height m.own.rid || s.holds .prepared m.own.height m.own.rid

/-- Where the missing commit signatures over `rid` can be had. -/
def signatureSources (m : Manager n) (rid : Rid) : List Nat :=
  ((List.finRange n).filter fun i =>
    (m.signatures.get i).isNone &&
      ((m.statuses.get i).height > m.own.height ||
        (m.statuses.get i).holds .prepared m.own.height (some rid))).map Fin.val

def waitingIntent (m : Manager n) : Intent :=
  if m.isPrimary then .buildBlock
  else
    match (m.statuses.get m.primary).rid with
    | some rid =>
      if (m.statuses.get m.primary).height = m.own.height then .fetchUnfinishedBlock rid
      else .doNothing
    | none => .doNothing

def preparedIntent (m : Manager n) (rid : Rid) : Intent :=
  match m.signatureSources rid with
  | [] => .doNothing
  | nodes => .fetchCommitSignatures rid nodes

/-- Moves to `intent` unless it is already the own one. -/
def follow (m : Manager n) (intent : Intent) : Option (Manager n) :=
  if m.intent = intent then none else some (m.setIntent intent)

/-- The next round; a prepared block survives it. -/
def advanceRound (m : Manager n) : Manager n :=
  let m := m.dropUnprepared.modifyOwn
    fun s => { s with revolting := false, round := s.round + 1, serial := s.serial + 1 }
  { m.record (.roundAdvanced m.own.height m.own.round) with viewChanges := m.viewChanges + 1 }

def prepare (m : Manager n) : Manager n :=
  (m.setPhase .prepared).modifyOwn fun s => { s with serial := s.serial + 1 }

/-- One step, or `none` when the manager has settled. Being behind comes first, then a revolt, then
the block at hand; a prepared validator never leaves its block to catch up. -/
def step (m : Manager n) : Option (Manager n) :=
  if m.own.phase ≠ .prepared ∧ m.behind then
    if m.intent.isFetchingHeight m.own.height then none
    else some (m.dropUnprepared.setIntent (.fetchBlockAtHeight m.own.height))
  else if m.own.revolting ∧ quorum n ≤ m.revoltVotes then some m.advanceRound
  else
    match m.own.phase with
    | .waitBlock => m.follow m.waitingIntent
    | .haveBlock => if m.holders < quorum n then none else some m.prepare
    | .prepared =>
      if m.intent = .commitBlock then none
      else if quorum n ≤ m.signed then some (m.setIntent .commitBlock)
      else m.own.rid.bind fun rid => m.follow (m.preparedIntent rid)

/-- At most `limit` steps; needing all of them counts as a hit of the limit. -/
def settle : (limit : Nat) → Manager n → Manager n
  | 0, m => { m.record (.limitReached m.config.maxIterations) with limitHits := m.limitHits + 1 }
  | limit + 1, m =>
    match m.step with
    | none => m
    | some m' => settle limit m'

def recompute (m : Manager n) : Manager n := settle m.config.maxIterations m

end Conclave.Manager
