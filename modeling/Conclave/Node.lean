import Conclave.Runner

/-!
A validator as a cluster holds it: driven from outside or by its own loop.
-/

namespace Conclave

inductive Node (n : Nat) where
  /-- Driven from outside. -/
  | free (v : Validator n)
  /-- Driven by its own loop. -/
  | running (r : Runner n)

namespace Node

variable {n : Nat}

def validator : Node n → Validator n
  | free v => v
  | running r => r.toValidator

def isRunning : Node n → Bool
  | free _ => false
  | running _ => true

/-- Whether it still takes messages. -/
def isLive : Node n → Bool
  | free _ => true
  | running r =>
    match r.stage with
    | .ended => false
    | _ => true

def setValidator (d : Node n) (v : Validator n) : Node n :=
  match d with
  | free _ => free v
  | running r => running { r with toValidator := v }

def modifyExecutor (d : Node n) (f : Executor n → Executor n) : Node n :=
  d.setValidator (d.validator.act f)

/-- The oldest answer, taken out. -/
def nextAnswer (d : Node n) : Option (Answer Task × Node n) :=
  match d.validator.answers with
  | [] => none
  | a :: answers => some (a, d.modifyExecutor ({ · with answers }))

/-- Applies the result of a task. -/
def finish (d : Node n) (now : Duration) (a : Answer Task) : Except Fault (Node n) := do
  let x ← d.validator.toExecutor.finish now a
  return d.modifyExecutor fun _ => x

/-- Runs the next task. -/
def work (d : Node n) (now : Duration) : Node n :=
  d.modifyExecutor fun x => (x.runTask now).getD x

/-- Lets a loop take up to `limit` turns, until it has to wait. A fault is the end of the loop, and
of nothing else. -/
def takeTurns (now time rung : Duration) : (limit : Nat) → Node n → Node n
  | 0, d => d
  | limit + 1, d =>
    match d with
    | free _ => d
    | running r =>
      match r.turn now time rung with
      | .ok none => d
      | .ok (some r) => takeTurns now time rung limit (running r)
      | .error _ => running (r.enter .ended)

/-- The answers that wait to be applied. Fast sync sees to its own. -/
def results (d : Node n) : Nat := d.validator.answers.countP fun a => ¬a.task.isFastSync

/-- When it wakes by itself, if it does. -/
def alarm? : Node n → Option Alarm
  | free _ => none
  | running r => r.alarm?

/-- What its loop is asked to look at. -/
def calls : Node n → Nat
  | free _ => 0
  | running r => r.calls

/-- Hands a message over; a loop that has ended takes none. -/
def accept (d : Node n) (now : Duration) (sender : Nat) (message : Message) :
    Except Fault (Node n × Bool) := do
  match d with
  | free v => return (free (← v.handleMessage now sender message), true)
  | running r =>
    if d.isLive then return (running { r with inbox := r.inbox ++ [(sender, message)] }, true)
    else return (d, false)

/-- Asks its loop to end; no loop is asked twice. -/
def shutDown : Node n → Option (Node n)
  | free _ => none
  | running r => if r.shutdown then none else some (running { r with shutdown := true })

/-- Closes the inbox of its loop, once. -/
def closeInbox : Node n → Option (Node n)
  | free _ => none
  | running r => if r.inboxOpen then some (running { r with inboxOpen := false }) else none

end Node

end Conclave
