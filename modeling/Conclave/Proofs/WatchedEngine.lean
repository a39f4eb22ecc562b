import Conclave.Pipeline
import Mathlib.Data.Nat.Notation
import Mathlib.Tactic.Basic

/-!
# Engines that are watched

Any engine can be watched: a log keeps what is asked of it, and the builders that it hands out are
numbered, so that the log tells them apart. Nobody who works with the engine notices. A pipeline on
a watched engine gives the same answers and comes to the same state as on the engine itself.
-/

namespace Conclave

/-- What is asked of an engine, and what becomes of the builder in question. -/
inductive Call where
  /-- A load or a build. There is no builder if it fails. -/
  | make (builder : Option ℕ)
  /-- An engine rolls a builder back itself if its commit fails. -/
  | commit (builder : ℕ) (ok : Bool)
  | rollback (builder : ℕ)
  | retryTaken
  | close
deriving DecidableEq

namespace Call

def made? : Call → Option ℕ
  | make builder => builder
  | _ => none

def committed? : Call → Option ℕ
  | commit builder true => some builder
  | _ => none

def rolledBack? : Call → Option ℕ
  | commit builder false => some builder
  | rollback builder => some builder
  | _ => none

/-- The builders that were handed out, latest first. -/
def handedOut (calls : List Call) : List ℕ := calls.filterMap made?

def committed (calls : List Call) : List ℕ := calls.filterMap committed?

def rolledBack (calls : List Call) : List ℕ := calls.filterMap rolledBack?

end Call

structure Numbered (B : Type) where
  number : ℕ
  builder : B

structure Watched (E : Type) where
  engine : E
  /-- Newest first. -/
  calls : List Call := []

variable {E B T : Type} [BlockBuilder B] [BlockEngine E B] [Submission T]

instance : BlockBuilder (Numbered B) where
  block b := BlockBuilder.block b.builder
  signature b := BlockBuilder.signature b.builder
  applySignature b s :=
    (BlockBuilder.applySignature b.builder s).map fun builder => { b with builder }
  witness b := BlockBuilder.witness b.builder

/-- A new builder gets the next number. -/
def Watched.handOut (w : Watched E) :
    Except EngineError B × E → Except EngineError (Numbered B) × Watched E
  | (.error cause, engine) => (.error cause, ⟨engine, .make none :: w.calls⟩)
  | (.ok builder, engine) =>
    let number := (Call.handedOut w.calls).length
    (.ok ⟨number, builder⟩, ⟨engine, .make (some number) :: w.calls⟩)

instance : BlockEngine (Watched E) (Numbered B) where
  load w block := w.handOut (BlockEngine.load w.engine block)
  build w order := w.handOut (BlockEngine.build w.engine order)
  blockAt w := BlockEngine.blockAt w.engine
  signatureOf w := BlockEngine.signatureOf w.engine
  lastHeight w := BlockEngine.lastHeight w.engine
  retryTaken w := ⟨BlockEngine.retryTaken w.engine, .retryTaken :: w.calls⟩
  close w := ⟨BlockEngine.close w.engine, .close :: w.calls⟩
  commit w b witness :=
    let (result, engine) := BlockEngine.commit w.engine b.builder witness
    (result, ⟨engine, .commit b.number result.isOk :: w.calls⟩)
  rollback w b := ⟨BlockEngine.rollback w.engine b.builder, .rollback b.number :: w.calls⟩

namespace Watched

lemma load_def (w : Watched E) (b : Block) :
    BlockEngine.load w b = w.handOut (BlockEngine.load w.engine b) := rfl

lemma build_def (w : Watched E) (order : BuildOrder) :
    BlockEngine.build w order = w.handOut (BlockEngine.build w.engine order) := rfl

end Watched

lemma Numbered.applySignature_def (b : Numbered B) (s : Signature) :
    BlockBuilder.applySignature b s =
      (BlockBuilder.applySignature b.builder s).map fun builder => { b with builder } := rfl

/-! ### Nobody notices -/

lemma collect_numbered (b : Numbered B) (l : List Signature) :
    BlockBuilder.collect b l =
      (⟨b.number, (BlockBuilder.collect b.builder l).1⟩, (BlockBuilder.collect b.builder l).2) := by
  induction l generalizing b with
  | nil => rfl
  | cons s l ih =>
    have hown : BlockBuilder.signature b = BlockBuilder.signature b.builder := rfl
    unfold BlockBuilder.collect
    rw [hown, Numbered.applySignature_def]
    split
    · exact ih b
    · cases BlockBuilder.applySignature b.builder s with
      | error cause => rfl
      | ok builder => exact ih { b with builder }

namespace Worker

/-- The worker without log and numbers. -/
def unwatched (w : Worker (Watched E) (Numbered B)) : Worker E B :=
  ⟨w.engine.engine, w.builder.map Numbered.builder⟩

variable (w : Worker (Watched E) (Numbered B))

lemma unwatched_abandon : w.abandon.unwatched = w.unwatched.abandon := by
  obtain ⟨engine, builder⟩ := w
  cases builder <;> rfl

lemma unwatched_load (b : Block) :
    w.unwatched.load b = ((w.load b).1, (w.load b).2.unwatched) := by
  simp only [load, ← unwatched_abandon]
  obtain ⟨⟨engine, calls⟩, builder⟩ := w.abandon
  simp only [Watched.load_def, unwatched]
  rcases BlockEngine.load engine b with ⟨cause | made, engine⟩ <;> rfl

lemma unwatched_build (order : BuildOrder) :
    w.unwatched.build order = ((w.build order).1, (w.build order).2.unwatched) := by
  simp only [build, ← unwatched_abandon]
  obtain ⟨⟨engine, calls⟩, builder⟩ := w.abandon
  simp only [Watched.build_def, unwatched]
  rcases BlockEngine.build engine order with ⟨cause | made, engine⟩ <;> rfl

lemma unwatched_add (b : SealedBlock) :
    w.unwatched.add b = ((w.add b).1, (w.add b).2.unwatched) := by
  simp only [add, ← unwatched_abandon]
  obtain ⟨⟨engine, calls⟩, builder⟩ := w.abandon
  simp only [Watched.load_def, unwatched]
  rcases BlockEngine.load engine b.block with ⟨cause | made, engine⟩ <;> rfl

lemma unwatched_commit (signatures : List (Option Signature)) :
    w.unwatched.commit signatures =
      ((w.commit signatures).1, (w.commit signatures).2.unwatched) := by
  obtain ⟨⟨engine, calls⟩, builder⟩ := w
  cases builder with
  | none => rfl
  | some b =>
    simp only [commit, unwatched, Option.map_some, collect_numbered]
    rcases BlockBuilder.collect b.builder (signatures.filterMap id) with ⟨b', cause | ⟨⟩⟩ <;> rfl

omit [BlockEngine E B] in
lemma unwatched_verify (s : Signature) :
    w.unwatched.verify s = ((w.verify s).1, (w.verify s).2.unwatched) := by
  obtain ⟨⟨engine, calls⟩, builder⟩ := w
  cases builder with
  | none => rfl
  | some b =>
    simp only [verify, unwatched, Option.map_some, Numbered.applySignature_def]
    cases BlockBuilder.applySignature b.builder s <;> rfl

/-- Every job has the same answer and the same effect. -/
theorem unwatched_run (order : BuildOrder) (job : Job) :
    w.unwatched.run order job = ((w.run order job).1, (w.run order job).2.unwatched) := by
  cases job with
  | load b => exact unwatched_load w b
  | build => exact unwatched_build w order
  | add b => exact unwatched_add w b
  | commit signatures => exact unwatched_commit w signatures
  | verify s =>
    simp only [run, unwatched_verify]
  | blockAt | signatureOf | lastHeight => rfl

end Worker

namespace Pipeline

/-! ### Whole runs -/

/-- What can happen next to a pipeline and its engine. -/
inductive Act (E T : Type) where
  | submit (task : T)
  /-- The worker takes the next task; a build goes by `order`. -/
  | work (order : BuildOrder)
  | stop
  /-- The worker leaves, once it is stopped and has nothing left to do. -/
  | exit
  /-- Something else changes the state of the engine, as new transactions do. -/
  | disturb (change : E → E)

/-- The answers that come of an act, and the pipeline after it. -/
def act (p : Pipeline E B T) : Act E T → List (Answer T) × Pipeline E B T
  | .submit t => ((p.submit t).2.toList, (p.submit t).1)
  | .work order =>
    match p.next order with
    | none => ([], p)
    | some (a, p) => ([a], p)
  | .stop => ([], p.stop)
  | .exit => ([], p.exit)
  | .disturb change => ([], { p with worker.engine := change p.worker.engine })

def acts : List (Act E T) → Pipeline E B T → List (Answer T) × Pipeline E B T
  | [], p => ([], p)
  | a :: as, p =>
    let (answers, p) := p.act a
    let (more, p) := acts as p
    (answers ++ more, p)

/-- The act on a watched engine. What else happens to the engine is not logged. -/
def Act.watched : Act E T → Act (Watched E) T
  | .submit t => .submit t
  | .work order => .work order
  | .stop => .stop
  | .exit => .exit
  | .disturb change => .disturb fun w => { w with engine := change w.engine }

def unwatched (p : Pipeline (Watched E) (Numbered B) T) : Pipeline E B T :=
  { p with worker := p.worker.unwatched }

lemma unwatched_next (p : Pipeline (Watched E) (Numbered B) T) (order : BuildOrder) :
    p.unwatched.next order = (p.next order).map fun (a, p) => (a, p.unwatched) := by
  obtain ⟨w, queue, stopped, exited, queuedBlocks⟩ := p
  cases queue with
  | nil => rfl
  | cons t queue =>
    cases stopped with
    | true => rfl
    | false =>
      have hrun := w.unwatched_run order (Submission.job t)
      simp [next, unwatched, hrun]

omit [Submission T] in
lemma unwatched_exit (p : Pipeline (Watched E) (Numbered B) T) :
    p.exit.unwatched = p.unwatched.exit := by
  have habandon : p.unwatched.worker.abandon = p.worker.abandon.unwatched :=
    p.worker.unwatched_abandon.symm
  unfold exit
  by_cases h : p.stopped ∧ p.queue.isEmpty ∧ ¬p.exited
  · have h' : p.unwatched.stopped ∧ p.unwatched.queue.isEmpty ∧ ¬p.unwatched.exited := h
    rw [if_pos h, if_pos h', habandon]
    rfl
  · have h' : ¬(p.unwatched.stopped ∧ p.unwatched.queue.isEmpty ∧ ¬p.unwatched.exited) := h
    rw [if_neg h, if_neg h']

lemma unwatched_act (p : Pipeline (Watched E) (Numbered B) T) (a : Act E T) :
    p.unwatched.act a = ((p.act a.watched).1, (p.act a.watched).2.unwatched) := by
  cases a with
  | submit t =>
    obtain ⟨w, queue, stopped, exited, queuedBlocks⟩ := p
    cases stopped <;> rfl
  | work order =>
    simp only [act, Act.watched, unwatched_next]
    cases p.next order <;> rfl
  | stop => rfl
  | exit => exact Prod.ext rfl (unwatched_exit p).symm
  | disturb change => rfl

/-- Whatever happens, the answers are the same, and so is what comes of it. -/
theorem unwatched_acts (as : List (Act E T)) (p : Pipeline (Watched E) (Numbered B) T) :
    acts as p.unwatched =
      ((acts (as.map Act.watched) p).1, (acts (as.map Act.watched) p).2.unwatched) := by
  induction as generalizing p with
  | nil => rfl
  | cons a as ih =>
    simp only [acts, List.map_cons, unwatched_act, ih]

end Pipeline

end Conclave
