import KeyScan.Config.Basic
import KeyScan.Config.Settings

/-!
Configurations read from a JSON file and from environment variables, over the defaults. Numbers and
switches may be written in several ways; the result has to be valid.
-/

namespace KeyScan

/-- Why there is no configuration. -/
inductive ConfigFault where
  /-- A source cannot be read, or a value is not of its kind. -/
  | unreadable
  /-- A rule of valid configurations is broken. -/
  | invalid (message : String)
  deriving DecidableEq, Repr

namespace Setting

/-! ### Values of each kind -/

/-- The words for a switch, in any case. -/
def switch? (word : String) : Option Bool :=
  match Text.lowercase word with
  | "true" => some true
  | "on" => some true
  | "yes" => some true
  | "false" => some false
  | "off" => some false
  | "no" => some false
  | _ => none

/-- A natural number of 64 bits. Floats are rounded and kept within that range. -/
def natural? : Setting → Option Nat
  | int n => if 0 ≤ n then some n.toNat else none
  | float x => some x.roundToUInt64.toNat
  | bool value => some (if value then 1 else 0)
  | text word =>
      match switch? word with
      | some value => some (if value then 1 else 0)
      | none => (Text.unsigned? word.toList).filter fun n => n < UInt64.size
  | _ => none

/-- A natural number below `size`. -/
def nat? (size : Nat) (value : Setting) : Option Nat :=
  value.natural?.filter fun n => n < size

def bool? : Setting → Option Bool
  | bool value => some value
  | int n => some (n ≠ 0)
  | float x => some (!x.isZero)
  | text "1" => some true
  | text "0" => some false
  | text word => switch? word
  | _ => none

def double? : Setting → Option Double
  | float x => some x
  | int n => some (Double.ofInt n)
  | bool value => some (Double.ofInt (if value then 1 else 0))
  | text word =>
      match switch? word with
      | some value => some (Double.ofInt (if value then 1 else 0))
      | none => Double.ofText? word
  | _ => none

/-- A text; numbers and switches by their text. -/
def text? : Setting → Option String
  | text value => some value
  | int n => some (Text.ofInteger n)
  | float x => some x.text
  | bool true => some "true"
  | bool false => some "false"
  | _ => none

def texts? : Setting → Option (List String)
  | list items => items.mapM text?
  | _ => none

/-- A setting that has to be there. -/
def required {α : Type} (members : Settings) (name : String) (read : Setting → Option α) :
    Option α :=
  (member? members name).bind read

/-- A setting that has a default where it is left out. -/
def orDefault {α : Type} (members : Settings) (name : String) (default : α)
    (read : Setting → Option α) : Option α :=
  match member? members name with
  | none => some default
  | some value => read value

/-- A group of settings, read by its members. A list gives the named ones in order, and its other
items are passed over. -/
def group? {α : Type} (names : List String) (read : Settings → Option α) : Setting → Option α
  | group members => read members
  | list items => read (names.zip items)
  | _ => none

end Setting

namespace Config

open Setting

/-! ### Settings as a configuration -/

def plannerNames : List String :=
  ["batch_get_min_chunk_size", "batch_get_max_splits", "max_split_count", "salt_bucket_count",
    "max_prefix_expansion"]

def plannerOf? (members : Settings) : Option PlannerConfig := do
  return {
    minChunkSize := ← required members "batch_get_min_chunk_size" (nat? UInt64.size)
    maxBatches := ← required members "batch_get_max_splits" (nat? UInt64.size)
    maxSplitCount := ← required members "max_split_count" (nat? UInt64.size)
    saltBucketCount := ← required members "salt_bucket_count" (nat? UInt64.size)
    maxPrefixExpansion := ← required members "max_prefix_expansion" (nat? UInt64.size) }

def retryNames : List String :=
  ["max_retries", "initial_backoff_ms", "max_backoff_ms", "backoff_multiplier"]

def retryOf? (members : Settings) : Option RetryConfig := do
  return {
    maxRetries := UInt32.ofNat (← required members "max_retries" (nat? UInt32.size))
    initialBackoff := UInt64.ofNat (← required members "initial_backoff_ms" (nat? UInt64.size))
    maxBackoff := UInt64.ofNat (← required members "max_backoff_ms" (nat? UInt64.size))
    multiplier := ← required members "backoff_multiplier" double? }

/-- Retries are configured for snapshots. -/
def snapshotOf? (members : Settings) : Option RetryConfig :=
  orDefault members "retry" {} (group? retryNames retryOf?)

def regionLocalOf? (members : Settings) : Option RegionLocalConfig := do
  return {
    enabled := ← orDefault members "enabled" false bool?
    tables := ← orDefault members "tables" [] texts? }

/-- The port may be null. -/
def port? : Setting → Option (Option UInt16)
  | .null => some none
  | value => (nat? UInt16.size value).map fun n => some (UInt16.ofNat n)

def schedulingOf? (members : Settings) : Option SchedulingConfig := do
  return {
    workerHosts := ← orDefault members "worker_hosts" [] texts?
    workerPort := ← orDefault members "worker_port" none port? }

def scanOf? (members : Settings) : Option ScanConfig := do
  return {
    caching := UInt32.ofNat (← required members "caching" (nat? UInt32.size))
    pageSize := ← required members "page_size" (nat? UInt64.size) }

/-- Reads settings as a configuration. Names that are not known are passed over. -/
def ofSettings? (members : Settings) : Option Config := do
  return {
    planner := ← orDefault members "planner" {} (group? plannerNames plannerOf?)
    retry := ← orDefault members "snapshot" {} (group? ["retry"] snapshotOf?)
    regionLocal := ←
      orDefault members "region_local" {} (group? ["enabled", "tables"] regionLocalOf?)
    scheduling := ←
      orDefault members "scheduling" {} (group? ["worker_hosts", "worker_port"] schedulingOf?)
    scan := ← orDefault members "scan" {} (group? ["caching", "page_size"] scanOf?) }

/-- The settings that sources are laid over. Workers have none. -/
def defaults : Settings :=
  let config : Config := {}
  [ ("planner", .group [
      ("batch_get_min_chunk_size", .int config.planner.minChunkSize),
      ("batch_get_max_splits", .int config.planner.maxBatches),
      ("max_split_count", .int config.planner.maxSplitCount),
      ("salt_bucket_count", .int config.planner.saltBucketCount),
      ("max_prefix_expansion", .int config.planner.maxPrefixExpansion)]),
    ("snapshot", .group [("retry", .group [
      ("max_retries", .int config.retry.maxRetries.toNat),
      ("initial_backoff_ms", .int config.retry.initialBackoff.toNat),
      ("max_backoff_ms", .int config.retry.maxBackoff.toNat),
      ("backoff_multiplier", .float config.retry.multiplier)])]),
    ("region_local", .group [
      ("enabled", .bool config.regionLocal.enabled),
      ("tables", .list (config.regionLocal.tables.map Setting.text))]),
    ("scan", .group [
      ("caching", .int config.scan.caching.toNat),
      ("page_size", .int config.scan.pageSize)])]

/-- The settings as a configuration that keeps all rules. -/
def checked (members : Settings) : Except ConfigFault Config :=
  match ofSettings? members with
  | none => .error .unreadable
  | some config =>
      match config.fault? with
      | some fault => .error (.invalid fault)
      | none => .ok config

/-! ### Sources -/

/-- What the names of environment variables begin with, in any case. -/
def environmentPrefix : List Char := "splitscan__".toList

/-- The settings that a variable may list, separated by commas. -/
def listSettings : List String := ["region_local.tables", "scheduling.worker_hosts"]

/-- Two underscores in a row as a point. -/
def dotted : List Char → List Char
  | '_' :: '_' :: rest => '.' :: dotted rest
  | c :: rest => c :: dotted rest
  | [] => []

/-- The value of a variable: a switch word, a whole number, a float, a list or else a text. -/
def variableValue (name value : String) : Setting :=
  let lower := Text.lowercase value
  if lower = "true" then .bool true
  else if lower = "false" then .bool false
  else
    match (Text.integer? value.toList).bind Scalar.int64? with
    | some n => .int n.toInt
    | none =>
        match Double.ofText? value with
        | some x => .float x
        | none =>
            if listSettings.contains name then .list ((Text.pieces ',' value).map Setting.text)
            else .text value

/-- The setting that an environment variable gives, if its name has the prefix. -/
def settingOfVariable? (name value : String) : Option (String × Setting) :=
  let lower := (Text.foldCase name).toList
  if environmentPrefix.isPrefixOf lower then
    let setting := String.ofList (dotted (lower.drop environmentPrefix.length))
    some (setting, variableValue setting value)
  else none

def environmentSettings (environment : List (String × String)) : Settings :=
  environment.filterMap fun (name, value) => settingOfVariable? name value

/-- The configuration of a file, which has to be there. -/
def ofFile (source : Option (List UInt8)) : Except ConfigFault Config :=
  match (source.bind Text.decode?).bind Setting.ofFile? with
  | none => .error .unreadable
  | some members => checked (layAll defaults (layAll [] members))

/-- The configuration of a file, if there is one, and the environment over it. A file that holds no
text counts as none. The two are laid over each other before they are laid over the defaults, so
that a section that the environment mends keeps its defaults. -/
def load (environment : List (String × String)) (source : Option (List UInt8)) :
    Except ConfigFault Config := do
  let file ←
    match source.bind Text.decode? with
    | none => pure []
    | some content => (Setting.ofFile? content).elim (.error .unreadable) .ok
  checked (layAll defaults (layAll (layAll [] file) (environmentSettings environment)))

end Config

end KeyScan
