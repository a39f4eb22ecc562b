import Conclave.Clock
import Conclave.Node

/-!
Validators that share a clock and a post office. Messages wait there in the order they were sent and
travel only when they are delivered. Work inside the validators is settled on demand, and what is
started first is done first: the loops that were called go on before alarms go off, and a pipeline
works only when everyone else waits.
-/

namespace Conclave

structure Letter where
  sender : Nat
  receiver : Nat
  message : Message
deriving DecidableEq

/-- What a validator can do at once. -/
inductive Errand where
  /-- Its loop goes on until it has to wait. -/
  | turn
  /-- The result of its oldest finished task is applied. -/
  | answer
deriving DecidableEq

structure Cluster (n : Nat) where
  clock : ManualClock
  /-- What the timers of running validators read. -/
  time : Duration := .zero
  /-- The time up to which alarms have gone off. -/
  rung : Duration := .zero
  nodes : Vector (Option (Node n)) n
  /-- The alarms of the loops with their validators, in the order in which they were set. -/
  alarms : List (Alarm × Nat) := []
  /-- First come, first served. -/
  errands : List (Nat × Errand) := []
  /-- The validators whose pipelines have something to do, once for each task, in the order of
  submission. -/
  tasks : List Nat := []
  /-- Undelivered, oldest first. -/
  mail : List Letter := []
  /-- All effects with their validators, newest first. -/
  trace : List (Nat × Effect) := []

namespace Cluster

variable {n : Nat}

/-- Every present validator starts at the height after its chain. -/
def start (config : Config) (sync : SyncConfig) (keys : Keyring n) (clock : ManualClock)
    (chain : Fin n → Chain) (present : Fin n → Bool) : Except Fault (Cluster n) := do
  let nodes ← (Vector.finRange n).mapM fun i =>
    if present i then do
      let v ← Validator.start (.start config i ((chain i).height + 1) 0)
        { config := config.building, lastBlock := .zero }
        { me := i, keys, chain := chain i }
        { sync with seed := Word.wrap (sync.seed + i) } clock.now
      return some (Node.free v)
    else return none
  return { clock, nodes }

def now (c : Cluster n) : Duration := c.clock.now

def node? (c : Cluster n) (i : Nat) : Option (Node n) := c.nodes[i]?.join

def validator? (c : Cluster n) (i : Nat) : Option (Validator n) := (c.node? i).map Node.validator

/-- The letters that an effect of validator `i` sends. -/
def letters (n i : Nat) : Effect → List Letter
  | .send (some receiver) message => [⟨i, receiver, message⟩]
  | .send none message => ((List.range n).filter (· ≠ i)).map fun receiver => ⟨i, receiver, message⟩
  | _ => []

/-- By how much a count of node `i` is larger in `d`. -/
def growth (c : Cluster n) (i : Nat) (d : Node n) (count : Node n → Nat) : Nat :=
  count d - ((c.node? i).map count).getD 0

/-- Puts a node back and takes over its effects. What it has to do now and had not before lines up
behind the rest. -/
def put (c : Cluster n) (i : Nat) (d : Node n) : Cluster n :=
  let effects := d.validator.effects
  { c with
    nodes := c.nodes.setIfInBounds i (some (d.modifyExecutor ({ · with effects := [] })))
    mail := c.mail ++ effects.reverse.flatMap (letters n i)
    trace := effects.map (fun e => (i, e)) ++ c.trace
    errands := c.errands ++ List.replicate (c.growth i d Node.results) (i, .answer)
      ++ List.replicate (c.growth i d Node.calls) (i, .turn)
    tasks := c.tasks ++ List.replicate (c.growth i d (·.validator.pipeline.pending)) i }

def modifyExecutor (c : Cluster n) (i : Nat) (f : Executor n → Executor n) : Cluster n :=
  match c.node? i with
  | some d => c.put i (d.modifyExecutor f)
  | none => c

/-- The work that one settling may take; a cluster that keeps still between its inputs needs
less. -/
def patience : Nat := 100000

/-- Sets the alarm of validator `i`. One that is set already keeps its place. -/
def setAlarm (c : Cluster n) (i : Nat) : Option Alarm → Cluster n
  | none => { c with alarms := c.alarms.filter (·.2 ≠ i) }
  | some a =>
    if c.alarms.contains (a, i) then c
    else { c with alarms := c.alarms.filter (·.2 ≠ i) ++ [(a, i)] }

/-- Lets the loop of a validator go on until it has to wait. -/
def turn (c : Cluster n) (i : Nat) : Cluster n :=
  match c.node? i with
  | none => c
  | some d =>
    let d := d.takeTurns c.now c.time c.rung patience
    (c.put i d).setAlarm i d.alarm?

/-- Applies the oldest answer. The loop of the validator may have waited for that. -/
def answer (c : Cluster n) (i : Nat) : Except Fault (Cluster n) := do
  match (c.node? i).bind Node.nextAnswer with
  | none => return c
  | some (a, d) =>
    let c := c.put i d
    return (c.put i (← d.finish c.now a)).turn i

def runErrand (c : Cluster n) (i : Nat) : Errand → Except Fault (Cluster n)
  | .turn => return c.turn i
  | .answer => c.answer i

/-- The pipeline of a validator does the next thing it has to do. -/
def runTask (c : Cluster n) (i : Nat) : Cluster n :=
  match c.node? i with
  | none => c
  | some d => (c.put i (d.work c.now)).turn i

/-- The alarms up to the present go off, the earliest first, and of two for the same millisecond the
one that was set first. -/
def ring (c : Cluster n) : Cluster n :=
  let (due, alarms) := c.alarms.partition (·.1.millis ≤ c.time.millis)
  let due := due.mergeSort fun (a, _) (b, _) => a.millis ≤ b.millis
  { c with rung := c.time, alarms, errands := c.errands ++ due.map fun (_, i) => (i, .turn) }

/-- Does the next thing there is to do, or `none`. Errands come before alarms, and alarms before
tasks. -/
def work (c : Cluster n) : Except Fault (Option (Cluster n)) := do
  match c.errands with
  | (i, e) :: errands => return some (← { c with errands }.runErrand i e)
  | [] =>
    if c.rung ≠ c.time then return some c.ring
    match c.tasks with
    | i :: tasks => return some ({ c with tasks }.runTask i)
    | [] => return none

/-- Works up to `limit` times. -/
def workOff : (limit : Nat) → Cluster n → Except Fault (Cluster n)
  | 0, c => return c
  | limit + 1, c => do
    match ← c.work with
    | none => return c
    | some c => workOff limit c

/-- Finishes all outstanding work. -/
def settle (c : Cluster n) : Except Fault (Cluster n) := c.workOff patience

/-- Lets a free validator enter its loop. -/
def startLoop (c : Cluster n) (i : Nat) : Option (Cluster n) :=
  match c.node? i with
  | some (.free v) =>
    let c := c.put i (.running (.start v c.time))
    some { c with errands := c.errands ++ [(i, .turn)] }
  | _ => none

/-- Lets a validator handle a message. -/
def inject (c : Cluster n) (i sender : Nat) (message : Message) :
    Except Fault (Cluster n × Bool) := do
  match c.node? i with
  | none => return (c, false)
  | some d =>
    let (d, taken) ← d.accept c.now sender message
    return (c.put i d, taken)

/-- Delivers the oldest letter; one to an absent validator vanishes, and so does one that `lost`
names. -/
def deliverNext (c : Cluster n) (lost : Letter → Bool) : Except Fault (Cluster n) := do
  match c.mail with
  | [] => return c
  | l :: mail =>
    let c := { c with mail }
    if lost l then return c
    else
      let (c, _) ← c.inject l.receiver l.sender l.message
      c.settle

/-- Delivers up to `limit` letters; the answer is their number. -/
def deliver (lost : Letter → Bool) : (limit : Nat) → Cluster n → Except Fault (Cluster n × Nat)
  | 0, c => return (c, 0)
  | limit + 1, c =>
    if c.mail.isEmpty then return (c, 0)
    else do
      let (c, count) ← deliver lost limit (← c.deliverNext lost)
      return (c, count + 1)

def tickNode (c : Cluster n) (i : Nat) : Except Fault (Cluster n) := do
  match c.node? i with
  | some (.free v) =>
    let (v, _) ← v.tick c.now
    (c.put i (.free v)).settle
  | _ => return c

def advanceClock (c : Cluster n) (span : Duration) : Cluster n :=
  { c with clock := c.clock.advance span }

/-- Every free validator ticks, all mail is delivered, and time passes. -/
def round (c : Cluster n) (span : Duration) (lost : Letter → Bool) :
    Except Fault (Cluster n × Nat) := do
  let c ← (List.range n).foldlM tickNode c
  let (c, count) ← c.deliver lost patience
  return (c.advanceClock span, count)

/-- Clock and timers move together. -/
def elapse (c : Cluster n) (span : Duration) : Except Fault (Cluster n) :=
  { c.advanceClock span with time := ⟨c.time.nanos + span.nanos⟩ }.settle

/-- Everything counted so far. -/
def counters (c : Cluster n) : List Counter :=
  c.trace.reverse.filterMap (·.2.counter?) ++
    (List.range n).flatMap fun i =>
      match c.validator? i with
      | some v => v.manager.journal.reverse.filterMap Counter.ofEvent?
      | none => []

end Cluster

end Conclave
