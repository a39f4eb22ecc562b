import Conclave.Executor
import Conclave.Random
import Conclave.Revolt

/-!
A validator among its peers: it applies what they say, answers what they ask, asks for what its
intent needs, tells its own status and watches the primary.
-/

namespace Conclave

structure Validator (n : Nat) extends Executor n where
  tracker : RevoltTracker
  sync : SyncConfig
  random : Random
  /-- The last own status sent to everyone, and when. -/
  lastBroadcast : Option (NodeStatus × Duration) := none
  /-- The last intent that peers were asked about, and when. -/
  lastRequest : Option (Intent × Duration) := none
  /-- Enough peers are far ahead. -/
  fastSync : Bool := false

namespace Validator

variable {n : Nat}

def start (manager : Manager n) (policy : BuildPolicy) (engine : Engine n) (sync : SyncConfig)
    (now : Duration) : Except Fault (Validator n) := do
  let tracker ← RevoltTracker.start manager.config.revolt manager.own now
  return { manager, policy, tracker, sync, pipeline := ⟨⟨engine, none⟩, [], false, false, 0⟩,
           random := .ofSeed sync.seed }

def act (v : Validator n) (f : Executor n → Executor n) : Validator n :=
  { v with toExecutor := f v.toExecutor }

def emit (v : Validator n) (e : Effect) : Validator n := v.act (·.emit e)

def note (v : Validator n) (entry : Note) : Validator n := v.emit (.note entry)

def send (v : Validator n) (receiver : Nat) (message : Message) : Validator n :=
  v.emit (.send (some receiver) message)

/-! ### Messages -/

/-- Switches fast sync on when a majority is at least the threshold ahead, and off again. -/
def checkFastSync (v : Validator n) : Validator n :=
  let threshold := v.sync.fastSyncThreshold
  if threshold = 0 then v
  else
    let target := Word.saturate (v.manager.own.height + threshold)
    let ahead := v.manager.tally fun s => target ≤ s.height
    let fastSync : Bool := majority n ≤ ahead
    let v := if fastSync ∧ ¬v.fastSync then
        (v.emit (.count .fastSync)).note .switchedToFastSync
      else v
    { v with fastSync }

/-- Gives the block at hand to a peer that wants it. -/
def serveUnfinished (v : Validator n) (receiver : Nat) (rid : Rid) : Validator n :=
  match v.block with
  | some b => if b.rid = rid then v.send receiver (.unfinishedBlock b) else v.note .blockNotHeld
  | none => v.note .blockNotHeld

/-- Gives the own signature over the own block, or looks it up in the chain. -/
def serveSignature (v : Validator n) (receiver : Nat) (rid : Rid) : Validator n :=
  match if v.manager.own.rid = some rid then v.manager.ownSignature else none with
  | some s => v.send receiver (.blockSignature rid s)
  | none => v.act (·.submit (.serveSignature receiver rid))

def receive (v : Validator n) (now : Duration) (sender : Nat) :
    Message → Except Fault (Validator n)
  | .status s => do
    let (x, _) ← (v.toExecutor.setTime now).tell (.status sender s)
    return { v with toExecutor := x }.checkFastSync
  | .getUnfinishedBlock rid => return v.serveUnfinished sender rid
  | .unfinishedBlock b => return v.act (·.receiveUnfinished b)
  | .getBlockAtHeight height => return v.act (·.submit (.serveBlock sender height))
  | .completeBlock b height => return v.act (·.receiveAtHeight b height)
  | .getBlockSignature rid => return v.serveSignature sender rid
  | .blockSignature rid s => return v.act (·.receiveSignature sender rid s)

/-- Only the other validators are listened to. -/
def handleMessage (v : Validator n) (now : Duration) (sender : Nat) (message : Message) :
    Except Fault (Validator n) :=
  let v := v.emit (.count (.received message.kind))
  if sender < n ∧ sender ≠ v.manager.me then v.receive now sender message
  else return (v.emit (.count .invalidMessage)).note .unexpectedSender

/-! ### Periodic work -/

/-- A random peer whose recorded status satisfies `p`. -/
def randomPeer (v : Validator n) (p : NodeStatus → Bool) : Option Nat × Validator n :=
  let candidates := (List.finRange n).filter fun i =>
    i ≠ v.manager.me ∧ p (v.manager.statuses.get i)
  let (peer, random) := v.random.choose (candidates.map Fin.val)
  (peer, { v with random })

/-- An intent is asked about when it is new, and again after the resend interval. -/
def requestDue (v : Validator n) (intent : Intent) (now : Duration) : Bool :=
  match v.lastRequest with
  | some (last, time) => last ≠ intent ∨ v.sync.requestResend ≤ now.since time
  | none => true

def askOne (v : Validator n) (p : NodeStatus → Bool) (message : Message) (entry : Note) :
    Bool × Validator n :=
  match v.randomPeer p with
  | (some peer, v) => (true, (v.note entry).send peer message)
  | (none, v) => (false, v)

/-- Asks peers for what the intent needs; the answer says whether anyone was asked. -/
def ask (v : Validator n) : Intent → Bool × Validator n
  | .fetchUnfinishedBlock rid =>
    let height := v.manager.own.height
    v.askOne (fun s => s.height = height ∧ s.rid = some rid) (.getUnfinishedBlock rid)
      .fetchingUnfinished
  | .fetchBlockAtHeight height =>
    v.askOne (fun s => s.height > height) (.getBlockAtHeight height) .fetchingHeight
  | .fetchCommitSignatures rid nodes =>
    (¬nodes.isEmpty, nodes.foldl (fun v node => v.send node (.getBlockSignature rid)) v)
  | _ => (false, v)

def request (v : Validator n) (intent : Intent) (now : Duration) : Validator n :=
  if v.requestDue intent now then
    match v.ask intent with
    | (true, v) => { v with lastRequest := some (intent, now) }
    | (false, v) => v
  else v

/-- The own status goes out when it has changed, and again after the resend interval. -/
def broadcastDue (v : Validator n) (now : Duration) : Bool :=
  match v.lastBroadcast with
  | some (last, time) => last ≠ v.manager.own ∨ v.sync.statusResend ≤ now.since time
  | none => true

def announce (v : Validator n) (now : Duration) : Validator n :=
  if v.broadcastDue now then
    { v.emit (.send none (.status v.manager.own)) with
      lastBroadcast := some (v.manager.own, now) }
  else v

def watchPrimary (v : Validator n) (now : Duration) : Except Fault (Validator n) := do
  let (due, x) := v.toExecutor.shouldBuild now
  let (tracker, manager, revolted) ← v.tracker.update (x.manager.setTime now) due now
  let v := { v with toExecutor := { x with manager }, tracker }
  return if revolted then v.emit (.count .revoltStarted) else v

/-- One round of periodic work; also the intent that it followed. -/
def tick (v : Validator n) (now : Duration) : Except Fault (Validator n × Intent) := do
  let v ← v.watchPrimary now
  let v := v.act (·.pump now)
  return ((v.request v.intent now).announce now, v.intent)

end Validator

end Conclave
