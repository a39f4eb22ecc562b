import Conclave.Cluster
import Conclave.LogFilter
import Conclave.Wire.Value

/-!
Reports: value trees that show states, results and errors to an observer. Bytes are shown in
hexadecimal and spans of time in milliseconds, unless they are no whole number of them.
-/

namespace Conclave

open Wire (Value)

class Report (α : Type) where
  report : α → Value

export Report (report)

instance : Report Value := ⟨id⟩
instance : Report Nat := ⟨.nat⟩
instance : Report Int := ⟨.integer⟩
instance : Report Bool := ⟨.bool⟩
instance : Report String := ⟨.text⟩
instance : Report Unit := ⟨fun _ => .text "ok"⟩

instance {α : Type} [Report α] : Report (Option α) :=
  ⟨fun | none => .null | some a => report a⟩

instance {α : Type} [Report α] : Report (List α) := ⟨fun xs => .list (xs.map report)⟩

instance {α β : Type} [Report α] [Report β] : Report (α × β) :=
  ⟨fun (a, b) => .list [report a, report b]⟩

instance {ε α : Type} [Report ε] [Report α] : Report (Except ε α) :=
  ⟨fun | .ok a => report a | .error e => report e⟩

instance : Report Bytes := ⟨fun b => .text (Hex.encode b)⟩

instance : Report Rid := ⟨fun r => .text r.toHex⟩

instance : Report Duration := ⟨fun d =>
  if d.nanos % 1000000 = 0 ∧ d.millis ≤ Word.maxUnsigned then report d.millis
  else .object [("s", report d.seconds), ("ns", report d.subsecond)]⟩

/-! ### Errors -/

def failure (kind message : String) : Value :=
  .object [("error", .text kind), ("message", .text message)]

def EngineError.kind : EngineError → String
  | .alreadyClosed => "AlreadyClosed"
  | .badData _ => "BadData"
  | .forceStopped => "ForceStopped"
  | .unknownSigner _ => "UnknownSigner"
  | .storage _ => "Storage"

def PipelineError.kind : PipelineError → String
  | .engine cause => cause.kind
  | .closed => "Closed"
  | .noPendingBlock => "NoPendingBlock"

def ConfigError.kind : ConfigError → String
  | .noIterations => "ZeroRecomputeIterations"
  | .zeroRevoltTimeout | .revoltDelayRange => "InvalidRevolt"
  | .emptyBlocks | .backoffRange => "InvalidBlockBuilding"

def Rid.ParseError.kind : Rid.ParseError → String
  | .invalidHex _ => "InvalidHex"
  | .invalidLength _ => "InvalidLength"

instance : Report Fault := ⟨fun f => failure "panic" f.message⟩
instance : Report EngineError := ⟨fun e => failure e.kind e.message⟩
instance : Report ConfigError := ⟨fun e => failure e.kind e.message⟩
instance : Report Rid.ParseError := ⟨fun e => failure e.kind e.message⟩

instance : Report PipelineError := ⟨fun e =>
  .object [("error", .text e.kind), ("message", .text e.message), ("is_closed", .bool e.isClosed)]⟩

/-! ### Settings -/

instance : Report RevoltConfig := ⟨fun c =>
  .object [("timeout", report c.timeout), ("base", report c.delayBase), ("max", report c.delayMax),
    ("fast", report c.fastTimeout)]⟩

instance : Report BuildingConfig := ⟨fun c =>
  .object [("max_block_time", report c.maxBlockTime),
    ("max_block_transactions", report c.maxTransactions),
    ("max_tx_delay", report c.maxTransactionDelay),
    ("min_inter_block_interval", report c.minInterval),
    ("min_backoff_time", report c.minBackoff), ("max_backoff_time", report c.maxBackoff)]⟩

instance : Report Config := ⟨fun c =>
  .object [("max_iter", report c.maxIterations), ("serial_epoch_millis", report c.serialEpoch),
    ("revolt", report c.revolt), ("building", report c.building)]⟩

instance : Report SyncConfig := ⟨fun c =>
  .object [("tick_interval", report c.tickInterval),
    ("status_resend_interval", report c.statusResend),
    ("request_resend_interval", report c.requestResend), ("seed", report c.seed),
    ("fast_sync_threshold", report c.fastSyncThreshold),
    ("fast_sync_max_retries", report c.fastSyncRetries)]⟩

instance : Report LogConfig := ⟨fun c =>
  .object [("default_filter", report c.filter), ("with_thread_names", report c.threadNames),
    ("ansi", report c.colors)]⟩

/-! ### Blocks -/

instance : Report Signature := ⟨fun s =>
  .object [("id", report s.signer), ("data", report s.data)]⟩

instance : Report Block := ⟨fun b =>
  .object [("rid", report b.rid), ("prev", report b.header.parent), ("height", report b.height),
    ("ts", report b.header.timestamp), ("txs", report b.transactions)]⟩

instance : Report Witness := ⟨fun w =>
  .object [("len", report w.signatures.length), ("is_empty", report w.signatures.isEmpty),
    ("signatures", report w.signatures)]⟩

instance : Report SealedBlock := ⟨fun b =>
  .object [("block", report b.block), ("witness", report b.witness)]⟩

/-- A fresh block with the own signature over it. -/
def reportBuilt (b : Block) (s : Signature) : Value :=
  .object [("block", report b), ("sig", report s)]

instance : Report Chain := ⟨fun c =>
  .object [("height", report c.height), ("last", report c.lastRid), ("rids", report c.rids),
    ("txs", report c.transactions)]⟩

def reportReply : (job : Job) → Except PipelineError job.Reply → Value
  | .load _, (r : Except _ Signature) => report r
  | .build, (r : Except _ (Block × Signature)) => report (r.map fun (b, s) => reportBuilt b s)
  | .add _, (r : Except _ Unit) => report r
  | .commit _, (r : Except _ Unit) => report r
  | .verify _, (r : Except _ Bool) => report r
  | .blockAt _ _, (r : Except _ (Option SealedBlock)) => report r
  | .signatureOf _, (r : Except _ (Option Signature)) => report r
  | .lastHeight, (r : Except _ (Option Nat)) => report r

/-! ### Status managers -/

instance : Report NodeStatus := ⟨fun s =>
  .object [("height", report s.height), ("serial", report s.serial), ("round", report s.round),
    ("state", report s.phase.name), ("rid", report s.rid), ("revolting", report s.revolting)]⟩

instance : Report Intent := ⟨fun
  | .doNothing => .list [.text "DoNothing"]
  | .commitBlock => .list [.text "CommitBlock"]
  | .buildBlock => .list [.text "BuildBlock"]
  | .fetchBlockAtHeight height => .list [.text "FetchBlockAtHeight", report height]
  | .fetchUnfinishedBlock rid => .list [.text "FetchUnfinishedBlock", report rid]
  | .fetchCommitSignatures rid nodes =>
    .list [.text "FetchCommitSignatures", report rid, report nodes]⟩

instance : Report Event := ⟨fun
  | .intentChanged old new => .list [.text "intent", .text old.summary, .text new.summary]
  | .phaseChanged height old new =>
    .list [.text "state", report height, .text old.name, .text new.name]
  | .roundAdvanced height round => .list [.text "round", report height, report round]
  | .heightAdvanced height => .list [.text "height", report height]
  | .revoltObserved node primary height round =>
    .list (.text "revolt" :: [node, primary, height, round].map report)
  | .rejected cause => .list [.text "rejected", .text cause.message]
  | .limitReached iterations => .list [.text "limit", report iterations]⟩

/-- The events after the first `shown` ones. -/
def Manager.reportEvents {n : Nat} (m : Manager n) (shown : Nat) : Value :=
  report (m.journal.take (m.journal.length - shown)).reverse

def Manager.reportStats {n : Nat} (m : Manager n) : Value :=
  report [m.viewChanges, m.own.round, m.own.height, m.limitHits]

instance {n : Nat} : Report (Manager n) := ⟨fun m =>
  .object [("n", report n), ("me", report m.me.val), ("quorum", report (quorum n)),
    ("primary", report m.primary.val), ("is_primary", report m.isPrimary),
    ("statuses", report m.statuses.toList), ("sigs", report m.signatures.toList),
    ("my_sig", report m.ownSignature), ("timestamps", report m.heardAt.toList),
    ("revolts", report m.revoltsAgainst.toList), ("stats", m.reportStats)]⟩

/-! ### Validators -/

def reportCounters (cs : List Counter) : Value :=
  .object ((totals cs).map fun (c, count) => (c.name, report count))

/-- The kind of a message and what it is about. -/
instance : Report Message := ⟨fun m =>
  .list [.text m.kind, match m with
    | .status s => .text s.summary
    | .getUnfinishedBlock rid | .getBlockSignature rid => report rid
    | .unfinishedBlock b => report b.rid
    | .getBlockAtHeight height => report height
    | .completeBlock b height =>
      .list [report height, report b.rid, report b.witness.signatures.length]
    | .blockSignature rid s => .list [report rid, report s.data]]⟩

def Executor.reportChain {n : Nat} (x : Executor n) : Value :=
  .list [report x.engine.chain.height, report x.engine.chain.lastRid]

/-- What a validator is at. A running one keeps its deadline to itself; `settled` adds what tasks
under way may still change. -/
def Node.report {n : Nat} (d : Node n) (settled : Bool) : Value :=
  let v := d.validator
  let own {α : Type} [Report α] (a : α) : Value :=
    if d.isRunning then .null else Conclave.report a
  .object ([("me", .text v.manager.own.summary), ("intent", .text v.manager.intent.summary),
    ("exec", Conclave.report v.intent), ("busy", Conclave.report v.busy),
    ("block", Conclave.report (v.block.map Block.rid)), ("last_ts", Conclave.report v.blockTime),
    ("fast", own v.fastSync), ("deadline", own v.tracker.deadline)] ++
    if settled then
      [("chain", v.reportChain), ("queue", Conclave.report v.engine.queue.size),
        ("forced", Conclave.report v.policy.forceStop)]
    else [])

end Conclave
