import KeyScan.Constraint
import KeyScan.Planning.Chunks
import KeyScan.Planning.KeyRanges
import KeyScan.Planning.Snapshots

/-!
Plans: the splits of a read. Equalities on the row key are looked up in batches; a table on the
allow-list is read region by region from a snapshot; any other read scans planned key ranges.
-/

namespace KeyScan.Planning

/-- How the rows of a query are read. -/
inductive Strategy where
  | batchGet
  | regionLocal
  | keyRange
  deriving DecidableEq, Repr

def selectStrategy (config : Config) (conditions : List Condition) (info : TableMeta) :
    Strategy :=
  if conditions.any fun c => c.isEqualityOn info.rowKeyColumn then .batchGet
  else if config.regionLocal.allows info.qualified then .regionLocal
  else .keyRange

/-- A unit to read and the conditions that its reader applies. -/
abbrev PlannedUnit := ScanUnit × List Condition

/-! ### Units -/

/-- The equalities on the row key, one for each key. -/
def wantedKeys (conditions : List Condition) (info : TableMeta) : List (Key × Condition) :=
  let keyed :=
    (conditions.filter fun c => c.isEqualityOn info.rowKeyColumn).map fun c => (c.value.key, c)
  keyed.eraseDupsBy fun a b => a.1 = b.1

/-- One batch: its keys, with their equalities and the conditions on other columns. -/
def batchUnit (residual : List Condition) (chunk : List (Key × Condition)) : PlannedUnit :=
  (.batchGet (chunk.map (·.1)), chunk.map (·.2) ++ residual)

def batchUnits (config : PlannerConfig) (conditions : List Condition) (info : TableMeta) :
    List PlannedUnit :=
  let residual := conditions.filter fun c => c.column ≠ info.rowKeyColumn
  (chunks config (wantedKeys conditions info)).map (batchUnit residual)

def regionUnits (conditions : List Condition) (snapshot : String) (regions : List Region) :
    List PlannedUnit :=
  regions.zipIdx.map fun (region, index) =>
    (.regionLocal (UInt64.ofNat index) region snapshot, conditions)

def rangeUnits (config : PlannerConfig) (conditions : List Condition) (info : TableMeta) :
    Except Error (List PlannedUnit) :=
  (planKeyRanges conditions info config).map fun ranges =>
    ranges.map fun range => (.keyRange range, conditions)

/-! ### Splits -/

/-- The split of a unit, hinted to the worker whose turn it is. -/
def splitOf (config : Config) (info : TableMeta) (unit : PlannedUnit) (index : Nat) : Split where
  schema := info.schema
  table := info.table
  rowKeyColumn := info.rowKeyColumn
  hostHints := (config.scheduling.hostFor index).toList
  conditions := unit.2
  unit := unit.1

def splitsOf (config : Config) (info : TableMeta) (units : List PlannedUnit) : List Split :=
  units.zipIdx.map fun (unit, index) => splitOf config info unit index

/-- Where region-local plans get the regions of a table from, by its schema and name. -/
abbrev RegionSource (σ : Type) := String → String → σ → Except Error (String × List Region) × σ

/-- The units of a read by its strategy. -/
def planUnits {σ : Type} (config : Config) (source : RegionSource σ) (conditions : List Condition)
    (info : TableMeta) (state : σ) : Except Error (List PlannedUnit) × σ :=
  match selectStrategy config conditions info with
  | .batchGet => (.ok (batchUnits config.planner conditions info), state)
  | .keyRange => (rangeUnits config.planner conditions info, state)
  | .regionLocal =>
      let (regions, state) := source info.schema info.table state
      (regions.map fun (snapshot, regions) => regionUnits conditions snapshot regions, state)

/-- Plans the splits of a read, in the order that `shuffle` puts them. Hints are given before. -/
def planWith {σ : Type} (config : Config) (source : RegionSource σ)
    (shuffle : List Split → List Split) (conditions : List Condition) (info : TableMeta)
    (state : σ) : Except Error (List Split) × σ :=
  match info.validate with
  | .error error => (.error error, state)
  | .ok () =>
      let (units, state) := planUnits config source conditions info state
      (units.map fun units => shuffle (splitsOf config info units), state)

/-- A plan succeeds exactly if its metadata is valid and its units can be planned. -/
theorem planWith_eq_ok_iff {σ : Type} {config : Config} {source : RegionSource σ}
    {shuffle : List Split → List Split} {conditions : List Condition} {info : TableMeta}
    {state after : σ} {splits : List Split} :
    planWith config source shuffle conditions info state = (.ok splits, after) ↔
      info.validate = .ok () ∧
        ∃ units, planUnits config source conditions info state = (.ok units, after) ∧
          splits = shuffle (splitsOf config info units) := by
  rw [planWith]
  cases info.validate with
  | error failure => simp
  | ok _ =>
      rcases planUnits config source conditions info state with ⟨_ | units, next⟩
      · simp [Except.map]
      · simp only [Except.map, Prod.mk.injEq, Except.ok.injEq]
        grind

/-- The source where no snapshots can be taken. -/
def noSnapshots (schema table : String) (_ : Unit) : Except Error (String × List Region) × Unit :=
  (.error (.invalidConfig ("table `" ++ qualifiedName schema table ++
    "` is allow-listed for region-local reads but no snapshot coordinator is configured")), ())

/-- Plans without snapshots. -/
def plan (config : Config) (shuffle : List Split → List Split) (conditions : List Condition)
    (info : TableMeta) : Except Error (List Split) :=
  (planWith config noSnapshots shuffle conditions info ()).1

/-- Plans with snapshots of a store, taken with the configured retries. -/
def planOver (config : Config) (stamp : String) (shuffle : List Split → List Split)
    (conditions : List Condition) (info : TableMeta) (timed : Timed) :
    Except Error (List Split) × Timed :=
  planWith config (snapshotRegions config.retry stamp) shuffle conditions info timed

end KeyScan.Planning
