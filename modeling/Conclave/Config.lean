import Conclave.Duration

/-!
Settings of a validator and the values it refuses to run with.
-/

namespace Conclave

/-- Patience with a primary. `fastTimeout` bounds the age of the primary's last status. -/
structure RevoltConfig where
  timeout : Duration := .ofMillis 10000
  delayBase : Duration := .ofMillis 1000
  delayMax : Duration := .ofMillis 600000
  fastTimeout : Option Duration := none
deriving DecidableEq, Inhabited

structure BuildingConfig where
  /-- A block is due this long after the last one, even an empty one. -/
  maxBlockTime : Duration := .ofMillis 3000
  /-- The most transactions of a block; as many queued ones make a block due. -/
  maxTransactions : Nat := 100
  maxTransactionDelay : Duration := .ofMillis 1000
  minInterval : Duration := .ofMillis 25
  minBackoff : Duration := .ofMillis 20
  maxBackoff : Duration := .ofMillis 2000
deriving DecidableEq, Inhabited

structure Config where
  /-- The most steps of one recompute. -/
  maxIterations : Nat := 1000
  /-- Subtracted from the clock to seed the own serial. -/
  serialEpoch : Nat := 1518000000000
  revolt : RevoltConfig := {}
  building : BuildingConfig := {}
deriving DecidableEq, Inhabited

structure SyncConfig where
  tickInterval : Duration := .ofMillis 25
  statusResend : Duration := .ofMillis 1000
  requestResend : Duration := .ofMillis 1000
  seed : Nat := 0
  /-- How many heights ahead enough peers must be; zero turns fast sync off. -/
  fastSyncThreshold : Nat := 3
  fastSyncRetries : Nat := 3
deriving DecidableEq, Inhabited

/-- How long a stopping pipeline waits for its worker. -/
structure PipelineConfig where
  stopTimeout : Duration := .ofMillis 1000
deriving DecidableEq, Inhabited

inductive ConfigError where
  | noIterations
  | zeroRevoltTimeout
  | revoltDelayRange
  | emptyBlocks
  | backoffRange
deriving DecidableEq, Repr

def ConfigError.message : ConfigError → String
  | .noIterations => "max_recompute_iterations must be at least 1"
  | .zeroRevoltTimeout => "Invalid revolt configuration: timeout must be positive"
  | .revoltDelayRange =>
    "Invalid revolt configuration: exponential_delay_max is below exponential_delay_base"
  | .emptyBlocks =>
    "Invalid block building configuration: max_block_transactions must be positive"
  | .backoffRange =>
    "Invalid block building configuration: max_backoff_time is below min_backoff_time"

def Config.validate (c : Config) : Except ConfigError Unit :=
  if c.maxIterations = 0 then .error .noIterations
  else if c.revolt.timeout = .zero then .error .zeroRevoltTimeout
  else if c.revolt.delayMax < c.revolt.delayBase then .error .revoltDelayRange
  else if c.building.maxTransactions = 0 then .error .emptyBlocks
  else if c.building.maxBackoff < c.building.minBackoff then .error .backoffRange
  else .ok ()

end Conclave
