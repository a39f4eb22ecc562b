import Conclave.Manager.Recompute

/-!
The inputs of a status manager. Each answers whether it was applied; one that is turned down leaves
nothing behind but the event that says why.
-/

namespace Conclave.Manager

variable {n : Nat}

/-- A manager that has heard of no one. Its serial counts the milliseconds since the configured
epoch. -/
def start (config : Config) (me : Fin n) (height wallMillis : Nat) : Manager n :=
  let serial := Word.toSigned (wallMillis - config.serialEpoch)
  let m : Manager n := {
    me, config
    statuses := Table.put (Vector.replicate n NodeStatus.unknown) me (.fresh height serial)
    signatures := Vector.replicate n none
    intent := .doNothing
    heardAt := Vector.replicate n none
    revoltSeen := Vector.replicate n none
    revoltsAgainst := Vector.replicate n 0
    viewChanges := 0
    limitHits := 0
    now := .zero
    journal := [] }
  { m.recompute with journal := [] }

/-- A manager for validator `me` of `n`, where `me` may be out of range. -/
def start? (config : Config) (n me height wallMillis : Nat) : Except Fault (Manager n) :=
  if h : me < n then .ok (start config ⟨me, h⟩ height wallMillis) else .error (.notAValidator me n)

def advanceHeight (m : Manager n) : Manager n :=
  let m := m.modifyOwn fun s =>
    { s with height := s.height + 1, serial := s.serial + 1, rid := none, round := 0,
             revolting := false }
  (((m.setPhase .waitBlock).clearSignatures.setIntent .doNothing).record
    (.heightAdvanced m.own.height)).recompute

def acceptBlock (m : Manager n) (rid : Rid) (signature : Signature) : Manager n :=
  let m := (m.clearSignatures.modifyOwn fun s =>
    { s with rid := some rid, serial := s.serial + 1 }).setPhase .haveBlock
  ({ m with signatures := m.signatures.put m.me (some signature) }.setIntent .doNothing).recompute

/-- Counts a revolt at the own height, once for each height and round of a validator in a row. -/
def noteRevolt (m : Manager n) (i : Fin n) (s : NodeStatus) : Manager n :=
  if ¬s.revolting ∨ s.height ≠ m.own.height ∨ m.revoltSeen.get i = some (s.height, s.round) then m
  else
    let primary := m.primaryFor s.height s.round
    { m.record (.revoltObserved i primary s.height s.round) with
      revoltSeen := m.revoltSeen.put i (some (s.height, s.round))
      revoltsAgainst := m.revoltsAgainst.put primary (m.revoltsAgainst.get primary + 1) }

/-- A peer's status; it is applied when it is fresher than the record. -/
def onStatus (m : Manager n) (node : Nat) (s : NodeStatus) : Manager n × Bool :=
  if h : node < n then
    let i : Fin n := ⟨node, h⟩
    if i = m.me then (m.reject .ownStatus, false)
    else if s.fresher (m.statuses.get i) then
      let m := { m with heardAt := m.heardAt.put i (some m.now) }.noteRevolt i s
      ({ m with statuses := m.statuses.put i s }.recompute, true)
    else (m, false)
  else (m.reject (.unknownNode node), false)

def advance : (heights : Nat) → Manager n → Manager n
  | 0, m => m
  | heights + 1, m => advance heights m.advanceHeight

/-- Catches up with a block committed elsewhere. -/
def fastForward (m : Manager n) (committed : Nat) : Manager n × Bool :=
  let target := Word.saturate (committed + 1)
  if target < m.own.height then (m.reject (.fastForwardBehind m.own.height target), false)
  else (advance (target - m.own.height) m, true)

def onHeightAdvance (m : Manager n) (height : Nat) : Manager n × Bool :=
  if height = Word.saturate (m.own.height + 1) then (m.advanceHeight, true)
  else (m.reject (.heightMismatch m.own.height height), false)

def onCommitted (m : Manager n) (rid : Rid) : Manager n × Bool :=
  if m.own.rid = some rid then (m.advanceHeight, true)
  else (m.reject (.wrongCommittedBlock rid), false)

/-- A block from the primary was loaded and signed. -/
def onReceived (m : Manager n) (rid : Rid) (signature : Signature) : Manager n × Bool :=
  if m.intent.isWaitingFor rid then (m.acceptBlock rid signature, true)
  else (m.reject (.irrelevantBlock rid m.intent), false)

def onBuilt (m : Manager n) (rid : Rid) (signature : Signature) : Manager n × Bool :=
  if m.intent ≠ .buildBlock then (m.reject (.unexpectedBuiltBlock m.intent), false)
  else if m.isPrimary then (m.acceptBlock rid signature, true)
  else (m.reject .notPrimary, false)

/-- A verified commit signature of `node`. -/
def onCommitSignature (m : Manager n) (node : Nat) (rid : Rid) (signature : Signature) :
    Manager n × Bool :=
  if h : node < n then
    if m.own.phase = .prepared ∧ m.own.rid = some rid then
      ({ m with signatures := m.signatures.put ⟨node, h⟩ (some signature) }.recompute, true)
    else (m.reject (.wrongCommitSignature node rid), false)
  else (m.reject (.unknownNode node), false)

/-- The own validator gives up on its primary. -/
def startRevolting (m : Manager n) : Manager n :=
  (m.modifyOwn fun s => { s with revolting := true, serial := s.serial + 1 }).recompute

def setTime (m : Manager n) (now : Duration) : Manager n := { m with now }

inductive Input where
  | status (node : Nat) (s : NodeStatus)
  | fastForward (committed : Nat)
  | heightAdvance (height : Nat)
  | committed (rid : Rid)
  | received (rid : Rid) (signature : Signature)
  | built (rid : Rid) (signature : Signature)
  | commitSignature (node : Nat) (rid : Rid) (signature : Signature)
  | revolt
  | time (now : Duration)
  | recompute

/-- The manager after the input, and whether the input was applied. -/
def respond (m : Manager n) : Input → Manager n × Bool
  | .status node s => m.onStatus node s
  | .fastForward committed => m.fastForward committed
  | .heightAdvance height => m.onHeightAdvance height
  | .committed rid => m.onCommitted rid
  | .received rid signature => m.onReceived rid signature
  | .built rid signature => m.onBuilt rid signature
  | .commitSignature node rid signature => m.onCommitSignature node rid signature
  | .revolt => (m.startRevolting, true)
  | .time now => (m.setTime now, true)
  | .recompute => (m.recompute, true)

/-- Own counters only grow within an input, so one that leaves its word shows in the result. -/
def handle (m : Manager n) (input : Input) : Except Fault (Manager n × Bool) :=
  let r := m.respond input
  if r.1.own.inRange then .ok r else .error .counterOverflow

end Conclave.Manager
