import Conclave.Ledger.BlockEngine
import Conclave.Pipeline.Job

/-!
A pipeline runs jobs on an engine one at a time, in the order of their submission. Its worker keeps
at most one builder that is not committed yet.
-/

namespace Conclave

structure Worker (E B : Type) where
  engine : E
  builder : Option B := none

namespace Worker

variable {E B : Type} [BlockBuilder B] [BlockEngine E B]

open BlockBuilder (block signature applySignature witness)

/-- Abandons the pending builder. -/
def abandon (w : Worker E B) : Worker E B :=
  match w.builder with
  | none => w
  | some b => ⟨BlockEngine.rollback (BlockEngine.retryTaken w.engine) b, none⟩

def load (w : Worker E B) (block : Block) : Except PipelineError Signature × Worker E B :=
  let w := w.abandon
  match BlockEngine.load w.engine block with
  | (.error e, engine) => (.error (.engine e), { w with engine })
  | (.ok b, engine) => (.ok (signature b), ⟨engine, some b⟩)

def build (w : Worker E B) (order : BuildOrder) :
    Except PipelineError (Block × Signature) × Worker E B :=
  let w := w.abandon
  match BlockEngine.build w.engine order with
  | (.error e, engine) => (.error (.engine e), { w with engine })
  | (.ok b, engine) => (.ok (block b, signature b), ⟨engine, some b⟩)

def add (w : Worker E B) (b : SealedBlock) : Except PipelineError Unit × Worker E B :=
  let w := w.abandon
  match BlockEngine.load w.engine b.block with
  | (.error e, engine) => (.error (.engine e), { w with engine })
  | (.ok builder, engine) =>
    let (result, engine) := BlockEngine.commit engine builder b.witness
    (result.mapError .engine, { w with engine })

/-- Commits the pending block. A bad signature keeps it pending. -/
def commit (w : Worker E B) (signatures : List (Option Signature)) :
    Except PipelineError Unit × Worker E B :=
  match w.builder with
  | none => (.error .noPendingBlock, w)
  | some b =>
    match BlockBuilder.collect b (signatures.filterMap id) with
    | (b, .error e) => (.error (.engine e), { w with builder := some b })
    | (b, .ok ()) =>
      let (result, engine) := BlockEngine.commit w.engine b (witness b)
      (result.mapError .engine, ⟨engine, none⟩)

/-- Adds a valid signature to the pending block's witness. -/
def verify (w : Worker E B) (s : Signature) : Bool × Worker E B :=
  match w.builder with
  | none => (false, w)
  | some b =>
    match applySignature b s with
    | .error _ => (false, w)
    | .ok b => (true, { w with builder := some b })

def run (w : Worker E B) (order : BuildOrder) :
    (job : Job) → Except PipelineError job.Reply × Worker E B
  | .load block => w.load block
  | .build => w.build order
  | .add b => w.add b
  | .commit signatures => w.commit signatures
  | .verify s => let (valid, w) := w.verify s; (.ok valid, w)
  | .blockAt height transactions =>
    ((BlockEngine.blockAt w.engine height transactions).mapError .engine, w)
  | .signatureOf rid => ((BlockEngine.signatureOf w.engine rid).mapError .engine, w)
  | .lastHeight => ((BlockEngine.lastHeight w.engine).mapError .engine, w)

end Worker

/-- What is submitted to a pipeline: a job together with what its answer is for. -/
class Submission (T : Type) where
  job : T → Job

instance : Submission Job := ⟨id⟩

instance {τ : Type} : Submission (τ × Job) := ⟨Prod.snd⟩

structure Answer (T : Type) [Submission T] where
  task : T
  result : Except PipelineError (Submission.job task).Reply

structure Pipeline (E B T : Type) where
  worker : Worker E B
  /-- Submitted and not started, oldest first. -/
  queue : List T := []
  stopped : Bool := false
  /-- The worker has closed the engine. -/
  exited : Bool := false
  /-- Fetched blocks that wait to be added. -/
  queuedBlocks : Nat := 0

namespace Pipeline

variable {E B T : Type} [BlockBuilder B] [BlockEngine E B] [Submission T]

/-- A stopped pipeline takes no tasks. -/
def submit (p : Pipeline E B T) (t : T) : Pipeline E B T × Option (Answer T) :=
  if p.stopped then (p, some ⟨t, .error .closed⟩)
  else
    ({ p with
      queue := p.queue ++ [t]
      queuedBlocks := p.queuedBlocks + if (Submission.job t).isAdd then 1 else 0 }, none)

/-- Runs the next task, or drops it once the pipeline is stopped. -/
def next (p : Pipeline E B T) (order : BuildOrder) : Option (Answer T × Pipeline E B T) :=
  match p.queue with
  | [] => none
  | t :: queue =>
    let p := { p with
      queue
      queuedBlocks := p.queuedBlocks - if (Submission.job t).isAdd then 1 else 0 }
    if p.stopped then some (⟨t, .error .closed⟩, p)
    else
      let (result, worker) := p.worker.run order (Submission.job t)
      some (⟨t, result⟩, { p with worker })

/-- Runs up to `limit` tasks; the answers are in the order of the tasks. -/
def run (order : BuildOrder) : (limit : Nat) → Pipeline E B T → List (Answer T) × Pipeline E B T
  | 0, p => ([], p)
  | limit + 1, p =>
    match p.next order with
    | none => ([], p)
    | some (a, p) =>
      let (answers, p) := run order limit p
      (a :: answers, p)

def stop (p : Pipeline E B T) : Pipeline E B T := { p with stopped := true }

/-- What the worker has yet to do. Leaving is the last of it. -/
def pending (p : Pipeline E B T) : Nat := p.queue.length + (p.stopped && !p.exited).toNat

/-- The worker of a stopped pipeline without tasks gives up its builder and closes the engine. -/
def exit (p : Pipeline E B T) : Pipeline E B T :=
  if p.stopped ∧ p.queue.isEmpty ∧ ¬p.exited then
    let w := p.worker.abandon
    { p with worker := { w with engine := BlockEngine.close w.engine }, exited := true }
  else p

end Pipeline

end Conclave
