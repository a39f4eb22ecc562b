import Conclave.Metrics

/-!
What a validator does to the world around it: messages, notes in its log and counters.
-/

namespace Conclave

inductive Severity where
  | debug
  | info
  | warning
  | error
deriving DecidableEq

def Severity.name : Severity → String
  | .debug => "DEBUG"
  | .info => "INFO"
  | .warning => "WARN"
  | .error => "ERROR"

/-- What a validator asked of its pipeline and may not get. -/
inductive Attempt where
  | commit
  | build
  | load
  | add
  | verify
  | serveBlock
  | serveSignature
  | startFastSync
  | fastSyncAdd
  | finishFastSync
deriving DecidableEq

inductive Note where
  | failed (attempt : Attempt) (cause : PipelineError)
  | noBlockToCommit
  | blockCommitted
  | signatureNotNeeded
  | invalidSignature
  | unexpectedSender
  | blockNotHeld
  | fetchingUnfinished
  | fetchingHeight
  | switchedToFastSync
  | fastSyncStarted
  | fastSyncTimedOut
  | fastSyncClosed (cause : PipelineError)
  | fastSyncFinished
  | loopStarted
  | shutdownReceived
  | inboxClosed
  | loopStopped
deriving DecidableEq

/-- A shutdown is never worth more than a debug entry, bad data from a peer a warning. -/
def Attempt.severity (a : Attempt) (cause : PipelineError) : Severity :=
  match a with
  | commit => .error
  | build => if cause = .engine .forceStopped ∨ cause.isClosed then .debug else .error
  | load | add =>
    match cause with
    | .engine (.badData _) => .warning
    | _ => if cause.isClosed then .debug else .error
  | verify => if cause.isClosed then .debug else .error
  | fastSyncAdd => .warning
  | serveBlock | serveSignature | startFastSync | finishFastSync => .debug

def Attempt.text : Attempt → String
  | commit => "Can't commit block"
  | build => "Can't build block"
  | load => "Can't load unfinished block"
  | add => "Can't add received block"
  | verify => "Can't verify commit signature"
  | serveBlock => "Can't read block at height"
  | serveSignature => "Can't read block signature"
  | startFastSync => "Can't start fast sync"
  | fastSyncAdd => "Can't add fast-synced block"
  | finishFastSync => "Can't read chain height after fast sync"

namespace Note

def severity : Note → Severity
  | failed attempt cause => attempt.severity cause
  | noBlockToCommit => .error
  | blockCommitted | switchedToFastSync | fastSyncStarted | fastSyncFinished => .info
  | loopStarted | shutdownReceived | loopStopped => .info
  | invalidSignature | unexpectedSender => .warning
  | signatureNotNeeded | blockNotHeld | fetchingUnfinished | fetchingHeight => .debug
  | fastSyncTimedOut | fastSyncClosed _ | inboxClosed => .debug

def text : Note → String
  | failed attempt cause => attempt.text ++ ": " ++ cause.message
  | noBlockToCommit => "Don't have a block the status manager wants committed"
  | blockCommitted => "Committed block"
  | signatureNotNeeded => "Commit signature not needed"
  | invalidSignature => "Invalid commit signature"
  | unexpectedSender => "Dropping message from unexpected sender"
  | blockNotHeld => "Don't have the requested unfinished block"
  | fetchingUnfinished => "Fetching unfinished block"
  | fetchingHeight => "Fetching block at height"
  | switchedToFastSync => "Switching to fast sync"
  | fastSyncStarted => "Starting fast sync"
  | fastSyncTimedOut => "Fast sync request timed out"
  | fastSyncClosed cause => "Pipeline closed during fast sync: " ++ cause.message
  | fastSyncFinished => "Fast sync finished"
  | loopStarted => "Starting validator sync manager"
  | shutdownReceived => "Shutdown signal received"
  | inboxClosed => "Inbound channel closed"
  | loopStopped => "Validator sync manager stopped"

def line (m : Note) : String := m.severity.name ++ " " ++ m.text

end Note

inductive Effect where
  /-- No addressee means everyone else. -/
  | send (receiver : Option Nat) (message : Message)
  | note (entry : Note)
  | count (counter : Counter)
deriving DecidableEq

def Effect.counter? : Effect → Option Counter
  | .send .. => some .messageSent
  | .note _ => none
  | .count counter => some counter

end Conclave
