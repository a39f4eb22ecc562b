import Conclave.Message
import Conclave.Manager.Event
import Conclave.Pipeline.Job

/-!
Counters of a validator, and the metric families they are published under.
-/

namespace Conclave

inductive Operation where
  | load
  | build
  | add
  | commit
  | verify
  | blockAt
  | signatureOf
  | lastHeight
deriving DecidableEq

def Operation.name : Operation → String
  | .load => "load_unfinished_block"
  | .build => "build_block"
  | .add => "add_block"
  | .commit => "commit_block"
  | .verify => "verify_block_signature"
  | .blockAt => "block_at_height"
  | .signatureOf => "block_signature"
  | .lastHeight => "last_block_height"

def Job.operation : Job → Operation
  | .load _ => .load
  | .build => .build
  | .add _ => .add
  | .commit _ => .commit
  | .verify _ => .verify
  | .blockAt _ _ => .blockAt
  | .signatureOf _ => .signatureOf
  | .lastHeight => .lastHeight

/-- One occurrence of each adds one to its counter. -/
inductive Counter where
  | blockCommitted
  | blockBuilt
  | blockLoaded
  | viewChange
  | revoltStarted
  | limitHit
  | messageSent
  | invalidMessage
  | fastSync
  | fastSyncedBlock
  | failed (operation : Operation)
  | received (kind : String)
deriving DecidableEq

namespace Counter

def name : Counter → String
  | blockCommitted => "blocks_committed"
  | blockBuilt => "blocks_built"
  | blockLoaded => "blocks_loaded"
  | viewChange => "view_changes"
  | revoltStarted => "revolts_started"
  | limitHit => "recompute_limit_hits"
  | messageSent => "peer_messages_sent"
  | invalidMessage => "invalid_messages"
  | fastSync => "fast_syncs"
  | fastSyncedBlock => "fast_synced_blocks"
  | failed operation => "failed." ++ operation.name
  | received kind => "received." ++ kind

def ofEvent? : Event → Option Counter
  | .roundAdvanced _ _ => some viewChange
  | .limitReached _ => some limitHit
  | _ => none

/-- What a finished job adds. A job that met a shutdown adds nothing. -/
def ofJob? (job : Job) : Except PipelineError job.Reply → Option Counter
  | .error e => if e.isClosed then none else some (failed job.operation)
  | .ok _ =>
    match job with
    | .load _ => some blockLoaded
    | .build => some blockBuilt
    | .add _ | .commit _ => some blockCommitted
    | _ => none

end Counter

/-- The counters that occur, each with its number, in the order of their first occurrence. -/
def totals (cs : List Counter) : List (Counter × Nat) := cs.eraseDups.map fun c => (c, cs.count c)

inductive MetricKind where
  | counter
  | gauge
deriving DecidableEq

def MetricKind.name : MetricKind → String
  | .counter => "counter"
  | .gauge => "gauge"

/-- A published family of metrics. -/
structure MetricFamily where
  name : String
  help : String
  kind : MetricKind

namespace MetricFamily

/-- All families but the latency histogram, by name. -/
def all : List MetricFamily :=
  [⟨"strata_block_height", "Last committed block height", .gauge⟩,
   ⟨"strata_blocks_built_total", "Total number of blocks built as primary", .counter⟩,
   ⟨"strata_blocks_committed_total", "Total number of blocks committed", .counter⟩,
   ⟨"strata_blocks_loaded_total",
    "Total number of unfinished blocks loaded from the primary", .counter⟩,
   ⟨"strata_fast_synced_blocks_total", "Blocks added during fast sync", .counter⟩,
   ⟨"strata_fast_syncs_total", "Switches to fast sync after falling behind", .counter⟩,
   ⟨"strata_invalid_messages_received_total", "Peer messages from unknown senders", .counter⟩,
   ⟨"strata_peer_messages_received_total", "Peer messages received by kind", .counter⟩,
   ⟨"strata_peer_messages_sent_total", "Peer messages sent", .counter⟩,
   ⟨"strata_pipeline_failures_total", "Failed block pipeline operations", .counter⟩,
   ⟨"strata_pipeline_queued_blocks", "Fetched blocks waiting to be added", .gauge⟩,
   ⟨"strata_recompute_limit_hits_total",
    "Status recomputes that ran into the iteration bound", .counter⟩,
   ⟨"strata_revolts_started_total", "Total number of revolts started locally", .counter⟩,
   ⟨"strata_view_changes_total", "Total number of successful revolts", .counter⟩]

def header (f : MetricFamily) : List String :=
  ["# HELP " ++ f.name ++ " " ++ f.help, "# TYPE " ++ f.name ++ " " ++ f.kind.name]

end MetricFamily

end Conclave
