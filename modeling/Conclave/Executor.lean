import Conclave.BuildPolicy
import Conclave.Effect
import Conclave.Executor.Task
import Conclave.Ledger.Engine
import Conclave.Manager.Input

/-!
The executor turns the intent of the status manager into tasks for the pipeline and applies their
results. At most one operation is under way at a time; while it is, the executor's own intent is to
do nothing.
-/

namespace Conclave

structure Executor (n : Nat) where
  manager : Manager n
  policy : BuildPolicy
  pipeline : Pipeline (Engine n) (Builder n) Task
  /-- What is left to ask of peers. -/
  intent : Intent := .doNothing
  /-- The manager's intent at the last update. -/
  previous : Intent := .doNothing
  /-- The block built or loaded at the own height. -/
  block : Option Block := none
  /-- The timestamp of the last block held or passed. -/
  blockTime : Option Duration := none
  /-- Whether an operation is under way. -/
  busy : Bool := false
  /-- Whether someone waits for the operation, who then goes before its follow-up. -/
  awaited : Bool := false
  /-- Finished tasks whose results are not applied yet, oldest first. -/
  answers : List (Answer Task) := []
  /-- Newest first. -/
  effects : List Effect := []

namespace Executor

variable {n : Nat}

def engine (x : Executor n) : Engine n := x.pipeline.worker.engine

def modifyEngine (x : Executor n) (f : Engine n → Engine n) : Executor n :=
  { x with
    pipeline := { x.pipeline with worker := { x.pipeline.worker with engine := f x.engine } } }

/-- Queues a transaction. -/
def push (x : Executor n) (tx : Bytes) : Executor n :=
  x.modifyEngine fun e => { e with queue := e.queue.push tx }

def describe (x : Executor n) (name : String) : String :=
  Text.openRecord "IntentExecutor"
    [("pipeline", Text.quoted name),
      ("state", Text.record "ExecutorState"
        [("intent", x.intent.describe), ("previous_intent", x.previous.describe),
          ("current_block", Text.option Block.describe x.block),
          ("last_block_timestamp", Text.option Duration.render x.blockTime)])]

def emit (x : Executor n) (e : Effect) : Executor n := { x with effects := e :: x.effects }

def note (x : Executor n) (entry : Note) : Executor n := x.emit (.note entry)

def send (x : Executor n) (receiver : Nat) (message : Message) : Executor n :=
  x.emit (.send (some receiver) message)

def setForceStop (x : Executor n) (forceStop : Bool) : Executor n :=
  { x with policy := x.policy.setForceStop forceStop }

def setTime (x : Executor n) (now : Duration) : Executor n :=
  { x with manager := x.manager.setTime now }

/-- Hands an input to the status manager. -/
def tell (x : Executor n) (input : Manager.Input) : Except Fault (Executor n × Bool) := do
  let (manager, applied) ← x.manager.handle input
  return ({ x with manager }, applied)

/-! ### Tasks -/

/-- A task that a stopped pipeline refuses has its answer at once. -/
def submit (x : Executor n) (t : Task) : Executor n :=
  let (pipeline, refusal) := x.pipeline.submit t
  { x with pipeline, answers := x.answers ++ refusal.toList }

/-- Starts an operation unless one is under way. -/
def operate (x : Executor n) (t : Task) : Executor n :=
  if x.busy then x else { x with busy := true, intent := .doNothing }.submit t

def commitBlock (x : Executor n) : Executor n :=
  match x.block with
  | none => x.note .noBlockToCommit
  | some b => x.operate (.commit b x.manager.signatures.toList)

def shouldBuild (x : Executor n) (now : Duration) : Bool × Executor n :=
  let (due, policy) := x.policy.shouldBuild x.engine.queue.size now
  (due, { x with policy })

def buildBlock (x : Executor n) (now : Duration) : Executor n :=
  let x := x.setForceStop false
  if x.policy.mustWait now then x
  else
    let (due, x) := x.shouldBuild now
    if due then x.operate .build else x

/-- Acts on the manager's intent. Leaving an intent to build stops the build. -/
def update (x : Executor n) (now : Duration) : Executor n :=
  if x.busy then x
  else
    let x := if x.previous = .buildBlock ∧ x.manager.intent ≠ .buildBlock then x.setForceStop true
      else x
    let x := { x with previous := x.manager.intent, intent := .doNothing }
    match x.previous with
    | .commitBlock => x.commitBlock
    | .buildBlock => x.buildBlock now
    | intent => { x with intent }

def pump (x : Executor n) (now : Duration) : Executor n := (x.setTime now).update now

/-! ### Data from peers -/

def receiveUnfinished (x : Executor n) (b : Block) : Executor n :=
  if x.intent.isWaitingFor b.rid then x.operate (.load b) else x

def receiveAtHeight (x : Executor n) (b : SealedBlock) (height : Nat) : Executor n :=
  if x.intent.isFetchingHeight height then x.operate (.add b height) else x

/-- A signature is verified only while it can still count. -/
def receiveSignature (x : Executor n) (sender : Nat) (rid : Rid) (s : Signature) : Executor n :=
  if x.manager.own.phase = .prepared ∧ x.manager.own.rid = some rid then
    x.submit (.verify sender rid s)
  else x.note .signatureNotNeeded

/-! ### Results -/

/-- Lets the pipeline run its next task, or leave once it is stopped. -/
def runTask (x : Executor n) (now : Duration) : Option (Executor n) :=
  match x.pipeline.next (x.policy.order now) with
  | some (a, pipeline) =>
    let x := { x with pipeline, answers := x.answers ++ [a] }
    match Counter.ofJob? (Submission.job a.task) a.result with
    | none => some x
    | some c => some (x.emit (.count c))
  | none =>
    if x.pipeline.stopped ∧ ¬x.pipeline.exited then some { x with pipeline := x.pipeline.exit }
    else none

/-- The block at hand is `b` now. -/
def hold (x : Executor n) (b : Block) : Executor n :=
  { x with block := some b, blockTime := some (.ofMillis b.header.timestamp) }

/-- The chain has grown by a block of this time. -/
def pass (x : Executor n) (b : Block) : Executor n :=
  let time := Duration.ofMillis b.header.timestamp
  { x with block := none, blockTime := some time, policy := x.policy.blockCommitted time }

def succeed (x : Executor n) (now : Duration) :
    (t : Task) → t.job.Reply → Except Fault (Executor n)
  | .build, (b, s) => do
    let (x, applied) ← x.tell (.built b.rid s)
    return if applied then x.hold b else x
  | .load b, s => do
    let (x, applied) ← x.tell (.received b.rid s)
    return if applied then x.hold b else x
  | .add b height, _ => do
    if height = Word.maxUnsigned then throw .counterOverflow
    let (x, applied) ← x.tell (.heightAdvance (height + 1))
    return if applied then x.pass b.block else x
  | .commit b _, _ => do
    let (x, _) ← (x.note .blockCommitted).tell (.committed b.rid)
    return x.pass b
  | .verify sender rid s, (valid : Bool) => do
    if valid then
      let (x, _) ← (x.setTime now).tell (.commitSignature sender rid s)
      return x.pump now
    else return x.note .invalidSignature
  | .serveBlock receiver height, (found : Option SealedBlock) =>
    return match found with
      | some b => x.send receiver (.completeBlock b height)
      | none => x
  | .serveSignature receiver rid, (found : Option Signature) =>
    return match found with
      | some s => x.send receiver (.blockSignature rid s)
      | none => x
  | .chainHeight, _ | .fastAdd _, _ => return x

def fail (x : Executor n) (now : Duration) (cause : PipelineError) : Task → Executor n
  | .build =>
    let x := x.note (.failed .build cause)
    if cause = .engine .forceStopped then x
    else { x with policy := x.policy.blockFailed now }
  | .load _ => x.note (.failed .load cause)
  | .add .. => x.note (.failed .add cause)
  | .commit .. => x.note (.failed .commit cause)
  | .verify .. => x.note (.failed .verify cause)
  | .serveBlock .. => x.note (.failed .serveBlock cause)
  | .serveSignature .. => x.note (.failed .serveSignature cause)
  | .chainHeight | .fastAdd _ => x

/-- The operation is over. Its follow-up starts with it, so the executor is not seen idle. -/
def release (x : Executor n) (now : Duration) : Executor n :=
  let x := { x with busy := false }
  if x.awaited then { x with awaited := false } else x.update now

def finish (x : Executor n) (now : Duration) (a : Answer Task) : Except Fault (Executor n) := do
  let x := if a.task.isOperation then x.setTime now else x
  let x ← match a.result with
    | .ok reply => x.succeed now a.task reply
    | .error cause => pure (x.fail now cause a.task)
  return if a.task.isOperation then x.release now else x

end Executor

end Conclave
