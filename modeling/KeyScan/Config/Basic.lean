import KeyScan.Double.Arithmetic
import KeyScan.Request
import KeyScan.Split

/-!
Configuration of planning and scanning, its defaults, and what makes it valid.
-/

namespace KeyScan

/-- Limits of the planner. -/
structure PlannerConfig where
  /-- The fewest keys in a batch. -/
  minChunkSize : Nat := 20
  /-- The most batches for one query. -/
  maxBatches : Nat := 30
  /-- The most salted prefix ranges; past it, salt buckets are scanned. -/
  maxSplitCount : Nat := 100
  /-- The wanted number of salt buckets. -/
  saltBucketCount : Nat := 20
  /-- The most row-key prefixes. -/
  maxPrefixExpansion : Nat := 10000
  deriving DecidableEq, Repr

/-- Retries with a delay that grows up to a limit. Delays are in milliseconds. -/
structure RetryConfig where
  maxRetries : UInt32 := 3
  initialBackoff : UInt64 := 100
  maxBackoff : UInt64 := 100
  multiplier : Double := Double.one
  deriving DecidableEq, Repr

namespace RetryConfig

/-- The first attempt and the retries, as far as 32 bits count. -/
def maxAttempts (config : RetryConfig) : UInt32 :=
  if config.maxRetries < 4294967295 then config.maxRetries + 1 else 4294967295

/-- The delay before retry number `retry`, counted from zero, in double precision. -/
def backoff (config : RetryConfig) (retry : UInt32) : UInt64 :=
  let growth := config.multiplier.pow (min retry.toNat Int32.maxValue.toInt.toNat)
  let delay := (Double.ofInt config.initialBackoff.toNat).mul growth
  (delay.min (Double.ofInt config.maxBackoff.toNat)).toUInt64

end RetryConfig

/-- The allow-list entry that stands for every table, where it comes first. -/
def allTables : String := "*"

/-- The tables that are read from snapshot regions. -/
structure RegionLocalConfig where
  enabled : Bool := false
  tables : List String := []
  deriving DecidableEq, Repr

def RegionLocalConfig.allows (config : RegionLocalConfig) (qualified : String) : Bool :=
  config.enabled && (config.tables.head? = some allTables || config.tables.contains qualified)

/-- The workers that splits are hinted to. -/
structure SchedulingConfig where
  workerHosts : List String := []
  workerPort : Option UInt16 := none
  deriving DecidableEq, Repr

/-- The worker of the split at a position: each in turn. -/
def SchedulingConfig.hostFor (config : SchedulingConfig) (index : Nat) : Option HostAddress := do
  let port ← config.workerPort
  let host ← config.workerHosts[index % config.workerHosts.length]?
  return ⟨host, port⟩

/-- How splits are read. -/
structure ScanConfig where
  caching : UInt32 := defaultCaching
  pageSize : Nat := 1024
  deriving DecidableEq, Repr

structure Config where
  planner : PlannerConfig := {}
  retry : RetryConfig := {}
  regionLocal : RegionLocalConfig := {}
  scheduling : SchedulingConfig := {}
  scan : ScanConfig := {}
  deriving DecidableEq, Repr

namespace Config

/-- The rules of a valid configuration: whether each is broken, and how that is told. -/
def rules (config : Config) : List (Bool × String) :=
  [ (config.planner.minChunkSize = 0, "planner.batch_get_min_chunk_size must be > 0"),
    (config.planner.maxBatches = 0, "planner.batch_get_max_splits must be > 0"),
    (config.planner.maxSplitCount = 0, "planner.max_split_count must be > 0"),
    (config.planner.saltBucketCount = 0, "planner.salt_bucket_count must be > 0"),
    (config.planner.maxPrefixExpansion = 0, "planner.max_prefix_expansion must be > 0"),
    (config.retry.multiplier.numLt Double.one,
      "snapshot.retry.backoff_multiplier must be >= 1.0"),
    (config.retry.maxBackoff < config.retry.initialBackoff,
      "snapshot.retry.max_backoff_ms must be >= initial_backoff_ms"),
    (config.regionLocal.enabled && config.regionLocal.tables.isEmpty,
      "region_local.tables must list at least one table when region_local.enabled is set"),
    (!config.scheduling.workerHosts.isEmpty && config.scheduling.workerPort.isNone,
      "scheduling.worker_port is required when scheduling.worker_hosts is set"),
    (config.scan.caching = 0 || config.scan.pageSize = 0,
      "scan.caching and scan.page_size must be > 0")]

/-- The first rule that is broken. -/
def fault? (config : Config) : Option String :=
  (config.rules.find? (·.1)).map (·.2)

end Config

end KeyScan
