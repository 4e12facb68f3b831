import KeyScan.Config.Basic
import KeyScan.Json.Record

/-!
JSON form of configurations. A section may be left out; where it is there, it has all its fields,
those of region-local reads and of scheduling excepted.
-/

namespace KeyScan

namespace PlannerConfig

def toJson (config : PlannerConfig) : Json :=
  .object [("batch_get_min_chunk_size", .int config.minChunkSize),
    ("batch_get_max_splits", .int config.maxBatches),
    ("max_split_count", .int config.maxSplitCount),
    ("salt_bucket_count", .int config.saltBucketCount),
    ("max_prefix_expansion", .int config.maxPrefixExpansion)]

def ofJson? (value : Json) : Option PlannerConfig := do
  let record ← value.record? ["batch_get_min_chunk_size", "batch_get_max_splits",
    "max_split_count", "salt_bucket_count", "max_prefix_expansion"]
  return {
    minChunkSize := ← record.required "batch_get_min_chunk_size" (Json.nat? UInt64.size)
    maxBatches := ← record.required "batch_get_max_splits" (Json.nat? UInt64.size)
    maxSplitCount := ← record.required "max_split_count" (Json.nat? UInt64.size)
    saltBucketCount := ← record.required "salt_bucket_count" (Json.nat? UInt64.size)
    maxPrefixExpansion := ← record.required "max_prefix_expansion" (Json.nat? UInt64.size) }

end PlannerConfig

namespace RetryConfig

def toJson (config : RetryConfig) : Json :=
  .object [("max_retries", .int config.maxRetries.toNat),
    ("initial_backoff_ms", .int config.initialBackoff.toNat),
    ("max_backoff_ms", .int config.maxBackoff.toNat),
    ("backoff_multiplier", .real config.multiplier)]

def ofJson? (value : Json) : Option RetryConfig := do
  let record ← value.record? ["max_retries", "initial_backoff_ms", "max_backoff_ms",
    "backoff_multiplier"]
  return {
    maxRetries := ← record.required "max_retries" Json.uint32?
    initialBackoff := ← record.required "initial_backoff_ms" Json.uint64?
    maxBackoff := ← record.required "max_backoff_ms" Json.uint64?
    multiplier := ← record.required "backoff_multiplier" Json.double? }

/-- Retries stand in the section on snapshots. -/
def ofSnapshotJson? (value : Json) : Option RetryConfig := do
  let record ← value.record? ["retry"]
  record.defaulted "retry" {} ofJson?

end RetryConfig

namespace RegionLocalConfig

def toJson (config : RegionLocalConfig) : Json :=
  .object [("enabled", .bool config.enabled), ("tables", .texts config.tables)]

def ofJson? (value : Json) : Option RegionLocalConfig := do
  let record ← value.record? ["enabled", "tables"]
  return {
    enabled := ← record.defaulted "enabled" false Json.bool?
    tables := ← record.defaulted "tables" [] (Json.list? Json.text?) }

end RegionLocalConfig

namespace SchedulingConfig

def toJson (config : SchedulingConfig) : Json :=
  .object [("worker_hosts", .texts config.workerHosts),
    ("worker_port", .optional (fun port => .int port.toNat) config.workerPort)]

def ofJson? (value : Json) : Option SchedulingConfig := do
  let record ← value.record? ["worker_hosts", "worker_port"]
  return {
    workerHosts := ← record.defaulted "worker_hosts" [] (Json.list? Json.text?)
    workerPort := ← record.defaulted "worker_port" none (Json.optional? Json.uint16?) }

end SchedulingConfig

namespace ScanConfig

def toJson (config : ScanConfig) : Json :=
  .object [("caching", .int config.caching.toNat), ("page_size", .int config.pageSize)]

def ofJson? (value : Json) : Option ScanConfig := do
  let record ← value.record? ["caching", "page_size"]
  return {
    caching := ← record.required "caching" Json.uint32?
    pageSize := ← record.required "page_size" (Json.nat? UInt64.size) }

end ScanConfig

namespace Config

def toJson (config : Config) : Json :=
  .object [("planner", config.planner.toJson),
    ("snapshot", .object [("retry", config.retry.toJson)]),
    ("region_local", config.regionLocal.toJson), ("scheduling", config.scheduling.toJson),
    ("scan", config.scan.toJson)]

def ofJson? (value : Json) : Option Config := do
  let record ← value.record? ["planner", "snapshot", "region_local", "scheduling", "scan"]
  return {
    planner := ← record.defaulted "planner" {} PlannerConfig.ofJson?
    retry := ← record.defaulted "snapshot" {} RetryConfig.ofSnapshotJson?
    regionLocal := ← record.defaulted "region_local" {} RegionLocalConfig.ofJson?
    scheduling := ← record.defaulted "scheduling" {} SchedulingConfig.ofJson?
    scan := ← record.defaulted "scan" {} ScanConfig.ofJson? }

end Config

end KeyScan
