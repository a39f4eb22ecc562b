import Conclave.Config
import Conclave.Ledger.BlockEngine

/-!
When the primary builds a block: the queue, the time since the last block, and a pause after
failures.
-/

namespace Conclave

structure BuildPolicy where
  config : BuildingConfig
  /-- The timestamp of the last committed block. -/
  lastBlock : Duration
  /-- When transactions were first seen waiting since then. -/
  firstTransaction : Option Duration := none
  failedAt : Option Duration := none
  failures : Nat := 0
  /-- Asks a build under way to give up. -/
  forceStop : Bool := false

namespace BuildPolicy

/-- The pause after the failures so far, doubled by each of them. -/
def backoff (p : BuildPolicy) : Duration :=
  let doubled := if p.failures < 64 then 1 <<< p.failures else Word.maxUnsigned
  ((Duration.ofMillis doubled).saturatingAdd p.config.minBackoff).min p.config.maxBackoff

/-- Whether time alone makes a block due. If not, waiting transactions start their delay. -/
def timeUp (p : BuildPolicy) (waiting : Bool) (now : Duration) : Bool × BuildPolicy :=
  if p.config.maxBlockTime < now.since p.lastBlock then (true, p)
  else
    match p.firstTransaction with
    | some first => (p.config.maxTransactionDelay < now.since first, p)
    | none => (false, if waiting then { p with firstTransaction := some now } else p)

/-- Whether a block is due with `queued` transactions waiting. -/
def shouldBuild (p : BuildPolicy) (queued : Nat) (now : Duration) : Bool × BuildPolicy :=
  if now.since p.lastBlock < p.config.minInterval then (false, p)
  else if p.config.maxTransactions ≤ queued then (true, p)
  else p.timeUp (0 < queued) now

/-- Whether the last failure is too recent to try again. -/
def mustWait (p : BuildPolicy) (now : Duration) : Bool :=
  match p.failedAt with
  | none => false
  | some failedAt => now.since failedAt < p.backoff

/-- Whether a block with `count` transactions is full. -/
def isFull (p : BuildPolicy) (count : Nat) : Bool := p.config.maxTransactions ≤ count

def blockCommitted (p : BuildPolicy) (timestamp : Duration) : BuildPolicy :=
  { config := p.config, lastBlock := timestamp, forceStop := p.forceStop }

def blockFailed (p : BuildPolicy) (now : Duration) : BuildPolicy :=
  { p with failedAt := some now, failures := p.failures + 1 }

/-- The build that this policy allows now. -/
def order (p : BuildPolicy) (now : Duration) : BuildOrder :=
  ⟨p.config.maxTransactions, fun _ => p.forceStop, now.millis⟩

def setForceStop (p : BuildPolicy) (forceStop : Bool) : BuildPolicy := { p with forceStop }

end BuildPolicy

end Conclave
