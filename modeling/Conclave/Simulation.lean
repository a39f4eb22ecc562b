import Conclave.Cluster
import Conclave.Network

/-!
A whole cluster in one place: validators whose mail travels over a network that can be cut.
-/

namespace Conclave

/-- The timings are scaled down from those of a real cluster. -/
structure SimulationConfig where
  size : Nat := 4
  /-- Of the keys and of the choice of peers. -/
  seed : Nat := 1
  config : Config := {
    revolt := ⟨.ofMillis 400, .ofMillis 100, .ofMillis 2000, none⟩
    building := { maxBlockTime := .ofMillis 100, maxTransactionDelay := .ofMillis 50 } }
  sync : SyncConfig := {
    tickInterval := .ofMillis 10, statusResend := .ofMillis 200, requestResend := .ofMillis 200 }
  pipeline : PipelineConfig := {}
  network : NetworkConfig := {}

structure Simulation (n : Nat) where
  keys : Keyring n
  cluster : Cluster n
  network : Network Message

namespace Simulation

variable {n : Nat}

def start (c : SimulationConfig) (clock : ManualClock) : Except Fault (Simulation c.size) := do
  let keys := Keyring.ofSeed c.size c.seed
  let cluster ← Cluster.start c.config { c.sync with seed := c.seed } keys clock
    (fun _ => .empty) fun _ => true
  return { keys, cluster, network := .start c.size c.network }

def validators (s : Simulation n) : List (Validator n) :=
  (List.range n).filterMap s.cluster.validator?

def chain (s : Simulation n) (i : Nat) : Chain :=
  match s.cluster.validator? i with
  | some v => v.engine.chain
  | none => .empty

/-- The height of the chain of validator `i`, which has to be there. -/
def height (s : Simulation n) (i : Nat) : Except Fault Nat :=
  match s.cluster.validator? i with
  | some v => .ok v.engine.chain.height
  | none => .error (.indexOutOfRange n i)

/-- Gives a transaction to every validator. -/
def submit (s : Simulation n) (tx : Bytes) : Simulation n :=
  { s with cluster := (List.range n).foldl (fun c i => c.modifyExecutor i (·.push tx)) s.cluster }

def isolate (s : Simulation n) (i : Nat) : Simulation n :=
  { s with network := s.network.isolate i }

/-- Shuts a validator down. It goes silent and keeps its chain. -/
def stop (s : Simulation n) (i : Nat) : Except Fault (Simulation n) := do
  match s.cluster.node? i with
  | some (.free v) =>
    let r := { Runner.start v s.cluster.time with shutdown := true }
    return { s with cluster := ← (s.cluster.put i (.running r)).settle }
  | some (.running _) => return s
  | none => throw (.indexOutOfRange n i)

def isRunning (s : Simulation n) (i : Nat) : Bool :=
  ((s.cluster.node? i).map Node.isLive).getD false

/-- Whether all validators agree on every block that they have in common. -/
def agree (s : Simulation n) : Bool :=
  let chains := s.validators.map (·.engine.chain.rids)
  chains.all fun a => chains.all fun b => (a.zip b).all fun (x, y) => x = y

/-- One period of the tick. -/
def step (s : Simulation n) (span : Duration) : Except Fault (Simulation n) := do
  let (cluster, _) ← s.cluster.round span fun l => s.network.isCut l.sender l.receiver
  return { s with cluster }

/-- Steps until `p` holds, up to `limit` times; the answer says whether it does. -/
def stepUntil (span : Duration) (p : Simulation n → Bool) :
    (limit : Nat) → Simulation n → Except Fault (Simulation n × Bool)
  | 0, s => return (s, p s)
  | limit + 1, s => do
    if p s then return (s, true)
    stepUntil span p limit (← s.step span)

end Simulation

end Conclave
