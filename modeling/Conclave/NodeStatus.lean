import Conclave.Rid
import Conclave.Word

/-!
What one validator reports about itself.
-/

namespace Conclave

/-- Progress on the block at the current height. -/
inductive Phase where
  | waitBlock
  | haveBlock
  /-- A quorum holds the block; it is kept until it is committed. -/
  | prepared
deriving DecidableEq, Inhabited, Repr

def Phase.name : Phase → String
  | .waitBlock => "WaitBlock"
  | .haveBlock => "HaveBlock"
  | .prepared => "Prepared"

/-- `height` is that of the next block; `serial` grows with every change. -/
structure NodeStatus where
  height : Nat
  serial : Int
  round : Nat
  phase : Phase
  rid : Option Rid
  revolting : Bool
deriving DecidableEq

namespace NodeStatus

def fresh (height : Nat) (serial : Int) : NodeStatus := ⟨height, serial, 0, .waitBlock, none, false⟩

/-- The record of a validator that was never heard of. -/
def unknown : NodeStatus := fresh 0 (-1)

instance : Inhabited NodeStatus := ⟨unknown⟩

def holds (s : NodeStatus) (phase : Phase) (height : Nat) (rid : Option Rid) : Bool :=
  s.height = height ∧ s.phase = phase ∧ s.rid = rid

/-- Whether `s` replaces the record `old`. -/
def fresher (s old : NodeStatus) : Bool :=
  s.serial > old.serial ∨ s.height > old.height ∨ (s.height = old.height ∧ s.round > old.round)

/-- Whether the counters fit their words. -/
def inRange (s : NodeStatus) : Bool :=
  s.height ≤ Word.maxUnsigned ∧ s.round ≤ Word.maxUnsigned ∧
    Word.minSigned ≤ s.serial ∧ s.serial ≤ Word.maxSigned

def summary (s : NodeStatus) : String :=
  s!"h={s.height} r={s.round} s={s.serial} " ++ s.phase.name ++
    (match s.rid with
      | none => ""
      | some rid => " " ++ rid.short) ++
    (if s.revolting then " R" else "")

def describe (s : NodeStatus) : String :=
  Text.record "NodeStatus"
    [("height", toString s.height), ("serial", toString s.serial), ("round", toString s.round),
      ("state", s.phase.name), ("block_rid", Text.option Rid.short s.rid),
      ("revolting", toString s.revolting)]

end NodeStatus

end Conclave
