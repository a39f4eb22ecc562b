import Conclave.Block
import Conclave.Config
import Conclave.Manager.Event
import Conclave.Quorum
import Conclave.Table

/-!
The status manager of one among `n` validators: the last status of every validator, the commit
signatures over the own block, and the intent that follows from them.
-/

namespace Conclave

structure Manager (n : Nat) where
  me : Fin n
  config : Config
  /-- One record per validator, the own one included. -/
  statuses : Table n NodeStatus
  /-- Commit signatures over the own block. -/
  signatures : Table n (Option Signature)
  intent : Intent
  /-- When a status of each validator was last applied. -/
  heardAt : Table n (Option Duration)
  /-- The last height and round at which each validator was recorded revolting. -/
  revoltSeen : Table n (Option (Nat × Nat))
  /-- Revolts recorded against each validator while it was primary. -/
  revoltsAgainst : Table n Nat
  /-- Round advances so far. -/
  viewChanges : Nat
  /-- Recomputes cut off so far. -/
  limitHits : Nat
  /-- The time given to the next status. -/
  now : Duration
  /-- All events, newest first. -/
  journal : List Event

namespace Manager

variable {n : Nat}

def own (m : Manager n) : NodeStatus := m.statuses.get m.me

def primaryFor (m : Manager n) (height round : Nat) : Fin n :=
  ⟨(height % n + round % n) % n, Nat.mod_lt _ m.me.pos⟩

/-- The primary of the own height and round. -/
def primary (m : Manager n) : Fin n := m.primaryFor m.own.height m.own.round

def isPrimary (m : Manager n) : Bool := m.primary = m.me

/-- The own signature over the own block. -/
def ownSignature (m : Manager n) : Option Signature := m.signatures.get m.me

def lastHeard (m : Manager n) (node : Nat) : Option Duration := m.heardAt[node]?.join

def revoltCount (m : Manager n) (node : Nat) : Nat := m.revoltsAgainst[node]?.getD 0

/-- How many recorded statuses satisfy `p`. -/
def tally (m : Manager n) (p : NodeStatus → Bool) : Nat :=
  (List.finRange n).countP fun i => p (m.statuses.get i)

/-- How many commit signatures are stored. -/
def signed (m : Manager n) : Nat := (List.finRange n).countP fun i => (m.signatures.get i).isSome

def describe (m : Manager n) : String :=
  Text.openRecord "StatusManager"
    [("my_index", toString m.me.val), ("my_status", m.own.describe),
      ("intent", m.intent.describe)]

def record (m : Manager n) (e : Event) : Manager n := { m with journal := e :: m.journal }

def reject (m : Manager n) (cause : Rejection) : Manager n := m.record (.rejected cause)

def modifyOwn (m : Manager n) (f : NodeStatus → NodeStatus) : Manager n :=
  { m with statuses := m.statuses.put m.me (f m.own) }

def setIntent (m : Manager n) (intent : Intent) : Manager n :=
  if m.intent = intent then m
  else { m.record (.intentChanged m.intent intent) with intent }

def setPhase (m : Manager n) (phase : Phase) : Manager n :=
  if m.own.phase = phase then m
  else (m.modifyOwn ({ · with phase })).record (.phaseChanged m.own.height m.own.phase phase)

def clearSignatures (m : Manager n) : Manager n :=
  { m with signatures := Vector.replicate n none }

/-- Drops the own block and waits for one again. -/
def resetBlock (m : Manager n) : Manager n :=
  ((m.setPhase .waitBlock).modifyOwn
    fun s => { s with rid := none, serial := s.serial + 1 }).clearSignatures

/-- Drops a block that is not prepared. -/
def dropUnprepared (m : Manager n) : Manager n :=
  if m.own.phase = .haveBlock then m.resetBlock else m

theorem primaryFor_val (m : Manager n) (height round : Nat) :
    (m.primaryFor height round).val = (height + round) % n :=
  (Nat.add_mod height round n).symm

@[simp]
theorem own_modifyOwn (m : Manager n) (f : NodeStatus → NodeStatus) :
    (m.modifyOwn f).own = f m.own := by
  simp [own, modifyOwn]

@[simp]
theorem own_record (m : Manager n) (e : Event) : (m.record e).own = m.own := rfl

@[simp]
theorem intent_setIntent (m : Manager n) (intent : Intent) :
    (m.setIntent intent).intent = intent := by
  by_cases h : m.intent = intent <;> simp [setIntent, h]

@[simp]
theorem own_setIntent (m : Manager n) (intent : Intent) : (m.setIntent intent).own = m.own := by
  by_cases h : m.intent = intent <;> simp [setIntent, h, own, record]

end Manager

end Conclave
