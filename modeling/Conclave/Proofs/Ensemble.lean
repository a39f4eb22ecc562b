import Conclave.Proofs.HonestRecords

/-!
# Ensembles of validators

Validators that start together and talk through a network without any guarantee: whatever was once
sent can arrive at any time, any number of times, in any order or never. A validator that stops is
one that no action concerns any more.
-/

namespace Conclave

open Manager (Input)

/-- The managers of `n` validators, the blocks each has committed, and all that was ever sent. -/
structure Ensemble (n : ℕ) where
  nodes : Table n (Manager n)
  /-- The committed blocks of each validator, oldest first. -/
  chains : Table n (List Rid)
  /-- Every status that a validator had after its start or an input. -/
  snapshots : List (Fin n × NodeStatus)
  /-- Who asked whom to sign which block. -/
  requests : List (Fin n × Fin n × Rid)
  /-- Who signed which block for whom. -/
  answers : List (Fin n × Fin n × Rid)

/-- What can happen next. Snapshots, requests and answers are given by their place. -/
inductive Action (n : ℕ) where
  /-- A snapshot arrives at `i`. -/
  | deliver (i : Fin n) (snapshot : ℕ)
  /-- `i` has built the block `rid`. -/
  | build (i : Fin n) (rid : Rid) (signature : Signature)
  /-- `i` has loaded and signed the block `rid` of its primary. -/
  | receive (i : Fin n) (rid : Rid) (signature : Signature)
  | revolt (i : Fin n)
  /-- `i` asks `j` for the signature it collects. -/
  | ask (i j : Fin n)
  /-- A request arrives. -/
  | answer (request : ℕ)
  /-- An answer arrives. -/
  | collect (answer : ℕ) (signature : Signature)
  /-- `i` commits the block it holds. -/
  | commit (i : Fin n)
  /-- `i` takes over the next block of the chain of `j`. -/
  | adopt (i j : Fin n)
  /-- The same by fast synchronisation. -/
  | catchUp (i j : Fin n)
  | clock (i : Fin n) (now : Duration)
  | look (i : Fin n)

namespace Ensemble

variable {n : ℕ}

/-- All validators start at one height, each with its own settings and clock. -/
def start (config : Fin n → Config) (wallMillis : Fin n → ℕ) (height : ℕ) : Ensemble n :=
  let node i := Manager.start (config i) i height (wallMillis i)
  { nodes := Vector.ofFn node
    chains := Vector.replicate n []
    snapshots := (List.finRange n).map fun i => (i, (node i).own)
    requests := []
    answers := [] }

variable (e : Ensemble n)

def node (i : Fin n) : Manager n := e.nodes.get i

def chain (i : Fin n) : List Rid := e.chains.get i

/-- Puts validator `i` in a new state, where all can see it, with some blocks more committed. -/
def move (i : Fin n) (m : Manager n) (committed : List Rid) : Ensemble n :=
  { e with
    nodes := e.nodes.put i m
    chains := e.chains.put i (e.chain i ++ committed)
    snapshots := (i, m.own) :: e.snapshots }

/-- Hands an input to validator `i`. -/
def tell (i : Fin n) (input : Input) : Option (Ensemble n) :=
  match (e.node i).handle input with
  | .ok (m, _) => some (e.move i m [])
  | .error _ => none

/-- Hands validator `i` an input that takes it over the block `rid` to the next height. -/
def tellCommitted (i : Fin n) (rid : Rid) (input : Input) : Option (Ensemble n) :=
  match (e.node i).handle input with
  | .ok (m, true) =>
    if m.own.height = (e.node i).own.height + 1 then some (e.move i m [rid]) else none
  | _ => none

/-- What comes of an action, if it is possible. The height of a block is part of it, so a validator
builds at its own height. -/
def act (heightOf : Rid → ℕ) : Action n → Option (Ensemble n)
  | .deliver i snapshot => do
    let (j, s) ← e.snapshots[snapshot]?
    e.tell i (.status j s)
  | .build i rid signature =>
    if heightOf rid = (e.node i).own.height then e.tell i (.built rid signature) else none
  | .receive i rid signature => e.tell i (.received rid signature)
  | .revolt i => e.tell i .revolt
  | .ask i j =>
    match (e.node i).intent with
    | .fetchCommitSignatures rid nodes =>
      if j.val ∈ nodes then some { e with requests := (i, j, rid) :: e.requests } else none
    | _ => none
  | .answer request => do
    let (i, j, rid) ← e.requests[request]?
    if (e.node j).own.rid = some rid ∨ rid ∈ e.chain j then
      some { e with answers := (j, i, rid) :: e.answers }
    else none
  | .collect answer signature => do
    let (j, i, rid) ← e.answers[answer]?
    e.tell i (.commitSignature j rid signature)
  | .commit i =>
    match (e.node i).intent, (e.node i).own.rid with
    | .commitBlock, some rid => e.tellCommitted i rid (.committed rid)
    | _, _ => none
  | .adopt i j => do
    let rid ← (e.chain j)[(e.chain i).length]?
    e.tellCommitted i rid (.heightAdvance ((e.node i).own.height + 1))
  | .catchUp i j => do
    let rid ← (e.chain j)[(e.chain i).length]?
    e.tellCommitted i rid (.fastForward (e.node i).own.height)
  | .clock i now => e.tell i (.time now)
  | .look i => e.tell i .recompute

/-- The ensemble after an action; an impossible one is passed over. -/
def after (heightOf : Rid → ℕ) (a : Action n) : Ensemble n := (e.act heightOf a).getD e

def run (heightOf : Rid → ℕ) (actions : List (Action n)) : Ensemble n :=
  actions.foldl (after · heightOf) e

/-! ### What a move changes -/

section Move

variable {e} {i j : Fin n} {m : Manager n} {committed : List Rid}

lemma node_move : (e.move i m committed).node j = if i = j then m else e.node j :=
  Table.get_put _ _ _ _

@[simp] lemma node_move_self : (e.move i m committed).node i = m := Table.get_put_self _ _ _

lemma node_move_of_ne (h : i ≠ j) : (e.move i m committed).node j = e.node j :=
  Table.get_put_of_ne _ _ h

@[simp] lemma chain_move_self : (e.move i m committed).chain i = e.chain i ++ committed :=
  Table.get_put_self _ _ _

lemma chain_move_of_ne (h : i ≠ j) : (e.move i m committed).chain j = e.chain j :=
  Table.get_put_of_ne _ _ h

lemma mem_chain_move {rid : Rid} (h : rid ∈ e.chain j) : rid ∈ (e.move i m committed).chain j := by
  by_cases hij : i = j
  · subst hij
    simp [h]
  · rwa [chain_move_of_ne hij]

lemma mem_snapshots_move {s : NodeStatus} :
    (j, s) ∈ (e.move i m committed).snapshots ↔ (j = i ∧ s = m.own) ∨ (j, s) ∈ e.snapshots := by
  simp [move]

end Move

/-! ### What the past of an ensemble shows -/

/-- Validator `j` was once prepared on `rid`. -/
def Locked (j : Fin n) (rid : Rid) : Prop :=
  ∃ s, (j, s) ∈ e.snapshots ∧ s.phase = .prepared ∧ s.rid = some rid

/-- Validator `j` was once prepared on `rid` or has committed it. -/
def Signed (j : Fin n) (rid : Rid) : Prop := e.Locked j rid ∨ rid ∈ e.chain j

/-- A quorum was once prepared on `rid`. -/
def Final (rid : Rid) : Prop :=
  ∃ voters : Finset (Fin n), quorum n ≤ voters.card ∧ ∀ j ∈ voters, e.Locked j rid

section Past

variable {e} {i j : Fin n} {m : Manager n} {committed : List Rid} {rid : Rid}

lemma Locked.move (h : e.Locked j rid) : (e.move i m committed).Locked j rid := by
  obtain ⟨s, hs, hp⟩ := h
  exact ⟨s, mem_snapshots_move.mpr (.inr hs), hp⟩

lemma Signed.move (h : e.Signed j rid) : (e.move i m committed).Signed j rid :=
  h.imp Locked.move mem_chain_move

lemma Final.move (h : e.Final rid) : (e.move i m committed).Final rid := by
  obtain ⟨voters, hq, hv⟩ := h
  exact ⟨voters, hq, fun j hj => (hv j hj).move⟩

end Past

end Ensemble

end Conclave
