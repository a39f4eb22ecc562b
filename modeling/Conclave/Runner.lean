import Conclave.Validator

/-!
A validator in its loop: a shutdown comes before the messages in its inbox, and those before the
periodic tick. A tick finds the validator far behind turns into a fast sync, during which committed
blocks are fetched one by one and consensus rests.
-/

namespace Conclave

/-- A fast sync under way. -/
structure FastSync where
  /-- The height of the chain so far. -/
  height : Nat
  /-- The timestamp of the last block it added. -/
  timestamp : Option Nat := none
  /-- Failed requests since that block. -/
  failures : Nat := 0

/-- What a loop waits for. -/
inductive Stage where
  | ready
  /-- Fast sync waits for the operation under way. -/
  | pausing
  | readingHeight
  | fetching (f : FastSync) (deadline : Duration)
  | adding (f : FastSync) (timestamp : Nat)
  /-- A failed block may have come to the chain another way. -/
  | rechecking (f : FastSync)
  | finishing (timestamp : Option Nat)
  /-- The loop is left and waits for the operation under way. -/
  | closing
  | stopping
  /-- Left for good, or broken off by a fault; a fault leaves the pipeline as it is. -/
  | ended

structure Runner (n : Nat) extends Validator n where
  inbox : List (Nat × Message) := []
  inboxOpen : Bool := true
  /-- Whether a shutdown was asked for. -/
  shutdown : Bool := false
  nextTick : Duration
  stage : Stage := .ready

/-- What wakes a loop that waits. -/
structure Alarm where
  millis : Nat
  /-- Wakes for want of an answer from a peer, and not for a tick. -/
  overdue : Bool
deriving DecidableEq

/-- Alarms go off at whole milliseconds, so a deadline between two of them is kept at the later
one. -/
def Duration.roundUp (deadline : Duration) : Nat := (deadline.nanos + 999999) / 1000000

/-- Whether an alarm for `deadline` goes off by `time`. -/
def Duration.reached (deadline time : Duration) : Bool := deadline.roundUp ≤ time.millis

namespace Runner

variable {n : Nat}

/-- The first tick is due at once. A period of nothing is a fault. -/
def start (v : Validator n) (time : Duration) : Runner n :=
  { v.note .loopStarted with
    nextTick := time
    stage := if v.sync.tickInterval = .zero then .ended else .ready }

/-- When a loop that waits wakes by itself. -/
def alarm? (r : Runner n) : Option Alarm :=
  match r.stage with
  | .ready => some ⟨r.nextTick.roundUp, false⟩
  | .fetching _ deadline => some ⟨deadline.roundUp, true⟩
  | _ => none

/-- The messages that wait for the loop, and what it was told besides. -/
def calls (r : Runner n) : Nat := r.inbox.length + r.shutdown.toNat + (!r.inboxOpen).toNat

def modify (r : Runner n) (f : Validator n → Validator n) : Runner n :=
  { r with toValidator := f r.toValidator }

def enter (r : Runner n) (stage : Stage) : Runner n := { r with stage }

/-- The tick after one that was due at `deadline`: a late one skips to the next multiple of the
period. -/
def tickAfter (deadline time period : Duration) : Duration :=
  let late := time.since deadline
  if .ofMillis 5 < late then ⟨time.nanos + period.nanos - late.nanos % period.nanos⟩
  else ⟨deadline.nanos + period.nanos⟩

/-! ### Fast sync -/

def endFastSync (r : Runner n) (f : FastSync) : Runner n :=
  ({ r with fastSync := false }.modify (·.act (·.submit .chainHeight))).enter
    (.finishing f.timestamp)

/-- Asks a peer that is ahead for the next block, or ends for want of one. -/
def fetch (r : Runner n) (f : FastSync) (time : Duration) : Except Fault (Runner n) :=
  if r.sync.fastSyncRetries < f.failures then return r.endFastSync f
  else if f.height = Word.maxUnsigned then throw .counterOverflow
  else
    let (peer, v) := r.randomPeer fun s => s.height > f.height + 1
    let r := { r with toValidator := v }
    match peer with
    | none => return r.endFastSync f
    | some peer =>
      return (r.modify (·.send peer (.getBlockAtHeight (f.height + 1)))).enter
        (.fetching f (time.saturatingAdd r.sync.requestResend))

/-- The chain height was read for the stage. -/
def heightRead (r : Runner n) (now time : Duration) (result : Except PipelineError (Option Nat)) :
    Except Fault (Runner n) := do
  match r.stage, result with
  | .readingHeight, .ok height =>
    (r.modify (·.note .fastSyncStarted)).fetch ⟨height.getD 0, none, 0⟩ time
  | .readingHeight, .error cause =>
    return ({ r with fastSync := false }.modify (·.note (.failed .startFastSync cause))).enter
      .ready
  | .rechecking f, .ok (some height) => r.fetch { f with height := max f.height height } time
  | .rechecking f, _ => r.fetch f time
  | .finishing timestamp, .ok height =>
    let before := r.manager.own.height
    let (x, applied) ← (r.toExecutor.setTime now).tell (.fastForward (height.getD 0))
    let x :=
      if applied ∧ before < x.manager.own.height then
        { x with
          block := none
          policy := match timestamp with
            | some t => x.policy.blockCommitted (.ofMillis t)
            | none => x.policy }
      else x
    return { r with toExecutor := x.note .fastSyncFinished, stage := .ready }
  | .finishing _, .error cause =>
    return (r.modify (·.note (.failed .finishFastSync cause))).enter .ready
  | _, _ => return r

/-- The fetched block was added, or not. -/
def blockAdded (r : Runner n) (time : Duration) (result : Except PipelineError Unit) :
    Except Fault (Runner n) :=
  match r.stage, result with
  | .adding f timestamp, .ok () =>
    (r.modify (·.emit (.count .fastSyncedBlock))).fetch ⟨f.height + 1, some timestamp, 0⟩ time
  | .adding f _, .error cause =>
    if cause.isClosed then return (r.modify (·.note (.fastSyncClosed cause))).endFastSync f
    else
      return (r.modify fun v =>
        (v.note (.failed .fastSyncAdd cause)).act (·.submit .chainHeight)).enter
          (.rechecking { f with failures := f.failures + 1 })
  | _, _ => return r

/-! ### The loop -/

/-- Leaves the loop, after the operation under way. -/
def close (r : Runner n) : Runner n := { r with stage := .closing, awaited := r.busy }

def onTick (r : Runner n) (now time : Duration) : Except Fault (Runner n) := do
  let r := { r with nextTick := tickAfter r.nextTick time r.sync.tickInterval }
  if r.fastSync then return { r with stage := .pausing, awaited := r.busy }
  else
    let (v, _) ← r.toValidator.tick now
    return { r with toValidator := v }

def handle (r : Runner n) (now : Duration) (sender : Nat) (message : Message) :
    Except Fault (Runner n) := do
  let v ← r.toValidator.handleMessage now sender message
  return { r with toValidator := v }

/-- Any block for the requested height counts as the answer, whoever sent it. -/
def fetched (r : Runner n) (now : Duration) (f : FastSync) (sender : Nat) :
    Message → Except Fault (Runner n)
  | .completeBlock b height =>
    if height = f.height + 1 then
      return (r.modify (·.act (·.submit (.fastAdd b)))).enter (.adding f b.block.header.timestamp)
    else r.handle now sender (.completeBlock b height)
  | message => r.handle now sender message

/-- The answer that the loop itself waits for, taken out. -/
def ownAnswer? (r : Runner n) : Option (Answer Task × Runner n) :=
  (r.answers.find? (·.task.isFastSync)).map fun a =>
    (a, { r with answers := r.answers.eraseP (·.task.isFastSync) })

/-- Goes on with an answer. -/
def resume (r : Runner n) (now time : Duration) : Answer Task → Except Fault (Runner n)
  | ⟨.chainHeight, result⟩ => r.heightRead now time result
  | ⟨.fastAdd _, result⟩ => r.blockAdded time result
  | _ => return r

/-- One turn of the loop, or `none` when it has to wait. Timers have gone off up to `rung`. -/
def turn (r : Runner n) (now time rung : Duration) : Except Fault (Option (Runner n)) := do
  match r.stage with
  | .ready =>
    if r.shutdown then return some (r.modify (·.note .shutdownReceived)).close
    match r.inbox with
    | (sender, message) :: inbox => return some (← { r with inbox }.handle now sender message)
    | [] =>
      if ¬r.inboxOpen then return some (r.modify (·.note .inboxClosed)).close
      if r.nextTick.reached rung then return some (← r.onTick now time) else return none
  | .fetching f deadline =>
    if r.shutdown then return some r.close
    match r.inbox with
    | (sender, message) :: inbox => return some (← { r with inbox }.fetched now f sender message)
    | [] =>
      if ¬r.inboxOpen then return some r.close
      if deadline.reached rung then
        return some (← (r.modify (·.note .fastSyncTimedOut)).fetch
          { f with failures := f.failures + 1 } time)
      else return none
  | .pausing =>
    if r.busy then return none
    return some ((r.modify (·.act (·.submit .chainHeight))).enter .readingHeight)
  | .closing =>
    if r.busy then return none
    return some { r with stage := .stopping, pipeline := r.pipeline.stop }
  | .stopping =>
    if r.pipeline.exited then return some ((r.modify (·.note .loopStopped)).enter .ended)
    return none
  | _ =>
    match r.ownAnswer? with
    | some (a, r) => return some (← r.resume now time a)
    | none => return none

end Runner

end Conclave
