import KeyScan.Proofs.Planning.Attempts
import KeyScan.Proofs.Reads.Basic

/-! # Region-local reads

The splits of a region-local plan are read at any time, between any writes, and together give one
scan of the table as it was when the plan was made. -/

namespace KeyScan

open Planning

/-! ### Reads among writes -/

/-- What happens after a plan: the store is written to, or a split is read. -/
inductive Event where
  | write (write : Store.Write)
  | read (split : Split)
  deriving DecidableEq, Repr

def Event.read? : Event → Option Split
  | write _ => none
  | read split => some split

/-- Lets events happen one after the other. The answer is the rows of all reads. -/
def Store.execute (info : TableMeta) (projection : List String) (scan : ScanConfig) :
    Store → List Event → Except Error (List Row)
  | _, [] => .ok []
  | store, .write write :: rest => execute info projection scan (write.apply store) rest
  | store, .read split :: rest => do
      let rows ← store.readPlanned info projection scan split
      let others ← execute info projection scan store rest
      return rows ++ others

variable {info : TableMeta} {projection : List String} {columns : List CellAddress}
  {config : Config} {scan : ScanConfig} {name table : String} {stored : StoredTable}

/-- Reads of a snapshot do not depend on the writes between them. -/
theorem execute_eq_ok {returned : Split → List Row} {schedule : List Event}
    (hread : ∀ store : Store, store.Holds name table stored →
      ∀ split ∈ schedule.filterMap Event.read?,
        store.readPlanned info projection scan split = .ok (returned split))
    {store : Store} (hholds : store.Holds name table stored) :
    store.execute info projection scan schedule =
      .ok ((schedule.filterMap Event.read?).flatMap returned) := by
  induction schedule generalizing store with
  | nil => rfl
  | cons event rest ih =>
      cases event with
      | write write => exact ih hread (hholds.apply write)
      | read split =>
          have hfirst := hread store hholds split (by simp [Event.read?])
          have hrest := ih (fun store hstore other hother =>
            hread store hstore other (by simp [Event.read?, hother])) hholds
          rw [Store.execute, hfirst, hrest]
          rfl

/-! ### One region -/

/-- Of a region narrowed twice, the keys are those of the region within the bounds. -/
theorem any_mem_intersect_intersect (region bounds : KeyRange) (key : Key) :
    (region.intersect ((region.intersect bounds).getD emptyRange)).any (fun range => key ∈ range) =
      decide (key ∈ region ∧ key ∈ bounds) := by
  have hempty : key ∉ emptyRange := by
    intro hmem
    simpa [emptyRange] using hmem.2
  have hinner := KeyRange.any_mem_intersect region bounds key
  rw [KeyRange.any_mem_intersect]
  cases hintersect : region.intersect bounds with
  | none =>
      rw [hintersect] at hinner
      simp only [Option.any_none, Bool.false_eq, decide_eq_false_iff_not] at hinner
      simp [hempty, hinner]
  | some range =>
      rw [hintersect] at hinner
      simp only [Option.any_some, decide_eq_decide] at hinner
      simp only [Option.getD_some, hinner, decide_eq_decide]
      exact ⟨fun h => h.2, fun h => ⟨h.1, h⟩⟩

theorem scanRegion_eq_ok {store : Store} (hholds : store.Holds name table stored)
    (region : Region) (request : ScanRequest) :
    store.scanRegion name region request =
      .ok ((stored.rows.values.filter fun row =>
        (region.keyRange.intersect request.range).any fun range => row.key ∈ range).filterMap
          request.read) := by
  rw [Store.scanRegion, hholds]
  cases hintersect : region.keyRange.intersect request.range with
  | none => simp
  | some range => simp [Store.scanRows]

/-- A region is read as the whole snapshot is, whatever the store has become. -/
theorem readPlanned_region {constraint : Constraint} (hordered : constraint.Ordered)
    (hcolumns : info.Projects projection columns)
    {store : Store} (hholds : store.Holds name table stored) (number : UInt64) (region : Region)
    (index : Nat) :
    store.readPlanned info projection scan
        (splitOf config info (.regionLocal number region name, constraint.conditions) index) =
      .ok ((splitOf config info (.regionLocal number region name, constraint.conditions)
        index).share stored.rows.values
          (ScanRequest.under info constraint.conditions projection columns false)) := by
  rw [Store.readPlanned, buildRequest_eq_ok hcolumns scan rfl]
  change store.scanRegion name region _ = _
  rw [scanRegion_eq_ok hholds]
  -- The request narrows the region to the hull, and the scan narrows it by the request again.
  have hnarrowed : (stored.rows.values.filter fun row =>
      (region.keyRange.intersect (readRange
        (splitOf config info (.regionLocal number region name, constraint.conditions) index)
        info)).any fun range => row.key ∈ range) =
      (stored.rows.values.filter fun row => row.key ∈ region.keyRange).filter fun row =>
        row.key ∈ (KeyBounds.ofConditions constraint.conditions info).keyRange := by
    rw [List.filter_filter]
    apply List.filter_congr
    intro row _
    refine (any_mem_intersect_intersect _ _ row.key).trans ?_
    rw [Bool.decide_and, Bool.and_comm]
    rfl
  rw [hnarrowed]
  refine congrArg Except.ok ((List.filterMap_congr ?_).trans (filterMap_filter_hull hordered _))
  intro row hrow
  rw [List.mem_filter, decide_eq_true_eq] at hrow
  exact read_of_mem_hull hrow.2

/-! ### All regions -/

/-- A plan over regions can be made if its snapshot can be taken in as many attempts as are allowed. -/
theorem exists_planOver_eq_ok {stamp : String} {shuffle : List Split → List Split}
    {conditions : List Condition} {timed : Timed}
    (hvalid : info.validate = .ok ())
    (hstrategy : selectStrategy config conditions info = .regionLocal)
    (hallowed : timed.store.pendingFailures < config.retry.maxAttempts.toNat)
    (hcan : timed.store.CanTake (snapshotName info.schema info.table stamp) info.qualified) :
    ∃ splits after, planOver config stamp shuffle conditions info timed = (.ok splits, after) := by
  obtain ⟨found, after, hfound⟩ := exists_snapshotRegions_eq_ok hallowed hcan
  obtain ⟨units, hunits⟩ : ∃ units,
      planUnits config (snapshotRegions config.retry stamp) conditions info timed =
        (.ok units, after) := by
    rw [planUnits, hstrategy]
    simp only [hfound]
    exact ⟨_, rfl⟩
  exact ⟨_, after, planWith_eq_ok_iff.mpr ⟨hvalid, units, hunits, rfl⟩⟩

/-- A region-local plan that succeeds has a snapshot of the table as it was, and a split for each
region between its split points. -/
theorem exists_snapshot_of_planOver {stamp : String} {shuffle : List Split → List Split}
    {conditions : List Condition} {timed after : Timed} {splits : List Split}
    (hstrategy : selectStrategy config conditions info = .regionLocal)
    (hstale : ∀ stored, timed.store.tables.find? info.qualified = some stored →
      ∀ region ∈ stored.extraRegions, region.isStale = true)
    (hplan : planOver config stamp shuffle conditions info timed = (.ok splits, after)) :
    ∃ name stored, timed.store.tables.find? info.qualified = some stored ∧
      after.store.Holds name info.qualified stored ∧
      splits = shuffle (splitsOf config info (regionUnits conditions name
        (Store.regionsFrom info.qualified 0 [] stored.splitPoints))) := by
  obtain ⟨_, units, hunits, rfl⟩ := planWith_eq_ok_iff.mp hplan
  simp only [planUnits, hstrategy] at hunits
  rcases hregions : snapshotRegions config.retry stamp info.schema info.table timed with
    ⟨_ | ⟨name, regions⟩, next⟩
  · simp [hregions, Except.map] at hunits
  · obtain ⟨stored, hstored, hholds, rfl⟩ := holds_of_snapshotRegions hregions
    simp only [hregions, Except.map, Prod.mk.injEq, Except.ok.injEq] at hunits
    obtain ⟨rfl, rfl⟩ := hunits
    refine ⟨name, stored, hstored, hholds, ?_⟩
    rw [Store.filter_regionsOf (hstale stored hstored)]
    rfl

/-- The units of a snapshot hold each key once. -/
theorem countP_holds_regionUnits {conditions : List Condition} (hstored : stored.WellFormed)
    (name table : String) (key : Key) :
    ((regionUnits conditions name (Store.regionsFrom table 0 [] stored.splitPoints)).countP
      fun unit => unit.1.holds key) = 1 := by
  calc ((regionUnits conditions name
        (Store.regionsFrom table 0 [] stored.splitPoints)).countP fun unit => unit.1.holds key)
      = ((Store.regionsFrom table 0 [] stored.splitPoints).zipIdx.map Prod.fst).countP
          fun region => key ∈ region.keyRange := by
        rw [regionUnits, List.countP_map, List.countP_map]
        rfl
    _ = KeyRange.coverCount
          ((Store.regionsFrom table 0 [] stored.splitPoints).map Region.keyRange) key := by
        rw [List.zipIdx_map_fst, KeyRange.coverCount, List.countP_map]
        rfl
    _ = 1 := Store.coverCount_liveRegions hstored table key

/-- Region-local reads are a read of one snapshot: however the reads of the splits and any writes
follow each other after the plan, all reads together return what one scan of the table as it was
returns under all conditions, each row as often as it does. Every key is in one split. -/
theorem regionLocal_reads_perm_scan {stamp : String} {shuffle : List Split → List Split}
    {constraint : Constraint} {timed after : Timed} {splits : List Split}
    (hreachable : timed.store.Reachable)
    (hstale : ∀ stored, timed.store.tables.find? info.qualified = some stored →
      ∀ region ∈ stored.extraRegions, region.isStale = true)
    (hordered : constraint.Ordered)
    (hstrategy : selectStrategy config constraint.conditions info = .regionLocal)
    (hprojection : info.Knows projection)
    (hshuffle : ∀ splits, (shuffle splits).Perm splits)
    (hplan : planOver config stamp shuffle constraint.conditions info timed = (.ok splits, after))
    {schedule : List Event} (hschedule : (schedule.filterMap Event.read?).Perm splits) :
    (∃ rows whole,
      after.store.execute info projection config.scan schedule = .ok rows ∧
      timed.store.scanWhole info projection constraint.conditions = .ok whole ∧
      rows.Perm whole) ∧
    ∀ key, (splits.countP fun split => split.unit.holds key) = 1 := by
  obtain ⟨columns, hcolumns⟩ := exists_columns hprojection
  obtain ⟨name, stored, hstored, hholds, rfl⟩ :=
    exists_snapshot_of_planOver hstrategy hstale hplan
  obtain ⟨units, hunits⟩ : ∃ units : List PlannedUnit,
      units = regionUnits constraint.conditions name
        (Store.regionsFrom info.qualified 0 [] stored.splitPoints) := ⟨_, rfl⟩
  rw [← hunits] at hschedule ⊢
  have hsplits := hshuffle (splitsOf config info units)
  have honce : ∀ {splits : List Split}, splits.Perm (splitsOf config info units) →
      ∀ key, (splits.countP fun split => split.unit.holds key) = 1 := by
    intro splits hperm key
    rw [countP_holds_splits hperm, hunits]
    exact countP_holds_regionUnits (hreachable.wellFormed.find? hstored) name info.qualified key
  refine ⟨?_, honce hsplits⟩
  have hreads := hschedule.trans hsplits
  have hread : ∀ store : Store, store.Holds name info.qualified stored →
      ∀ split ∈ schedule.filterMap Event.read?,
        store.readPlanned info projection config.scan split =
          .ok (split.share stored.rows.values
            (ScanRequest.under info constraint.conditions projection columns false)) := by
    intro store hstore split hsplit
    obtain ⟨unit, hunit, index, rfl⟩ := exists_of_mem_splitsOf (hreads.mem_iff.mp hsplit)
    rw [hunits] at hunit
    obtain ⟨⟨region, number⟩, _, rfl⟩ := List.mem_map.mp hunit
    exact readPlanned_region hordered hcolumns hstore _ region index
  refine ⟨_, _, execute_eq_ok hread hholds, scanWhole_eq_ok hcolumns hstored, ?_⟩
  have hshares := flatMap_share_perm (q := fun _ => true)
    (ScanRequest.under info constraint.conditions projection columns false)
    fun row (_ : row ∈ stored.rows.values) => honce hreads row.key
  simpa using hshares

/-- Visits in two regions, with a stale entry in the manifest besides. -/
def splitVisits : Timed where
  store := (visitStore.setSplitPoints "web:visits" [Key.ofText "b"]).addRegion "web:visits"
    ⟨"parent", [], [], true, true, false⟩

/-- A visit is deleted before each of the reads. -/
theorem regionLocal_reads_perm_scan_visits :
    ∃ splits after rows whole,
      planOver { regionLocal := ⟨true, ["*"]⟩ } "0" List.reverse largeVisits.conditions visits
        splitVisits = (.ok splits, after) ∧
      after.store.execute visits ["visit", "size"] {}
        (splits.flatMap fun split =>
          [.write (.delete "web:visits" [Key.ofText "b-de-2"]), .read split]) = .ok rows ∧
      splitVisits.store.scanWhole visits ["visit", "size"] largeVisits.conditions = .ok whole ∧
      rows.Perm whole := by
  obtain ⟨splits, after, hplan⟩ : ∃ splits after,
      planOver { regionLocal := ⟨true, ["*"]⟩ } "0" List.reverse largeVisits.conditions visits
        splitVisits = (.ok splits, after) :=
    exists_planOver_eq_ok (by decide) (by decide) (by decide) ⟨by decide, _, rfl⟩
  have hreachable : splitVisits.store.Reachable :=
    .write (.write (.write .empty (.putRows "web:visits" _))
      (.setSplitPoints "web:visits" [Key.ofText "b"])) (.addRegion "web:visits" _)
  have hstale : ∀ stored, splitVisits.store.tables.find? visits.qualified = some stored →
      ∀ region ∈ stored.extraRegions, region.isStale = true := by
    intro stored hstored
    obtain rfl := Option.some.inj hstored
    decide
  have hreads : (splits.flatMap fun split =>
      [Event.write (.delete "web:visits" [Key.ofText "b-de-2"]), .read split]).filterMap
        Event.read? = splits := by
    rw [List.filterMap_flatMap]
    exact List.flatMap_singleton' splits
  obtain ⟨⟨rows, whole, hrows, hwhole, hperm⟩, -⟩ :=
    regionLocal_reads_perm_scan hreachable hstale largeVisits_ordered (by decide) visits_knows
      (fun _ => List.reverse_perm _) hplan (List.Perm.of_eq hreads)
  exact ⟨splits, after, rows, whole, hplan, hrows, hwhole, hperm⟩

end KeyScan
