import KeyScan.Proofs.Planning.KeyRanges
import KeyScan.Proofs.Reads.Basic

/-! # Key-range reads

Scanning the planned key ranges gives the rows of one scan of the whole table, each once. -/

namespace KeyScan

open Planning

variable {info : TableMeta} {projection : List String} {columns : List CellAddress}
  {config : Config} {store : Store} {stored : StoredTable}

/-- A range within the hull is read as the whole table is. -/
theorem readPlanned_keyRange (hcolumns : info.Projects projection columns)
    (hstored : store.tables.find? info.qualified = some stored)
    {conditions : List Condition} {range : KeyRange}
    (hrange : ∀ key ∈ range, key ∈ (KeyBounds.ofConditions conditions info).keyRange)
    (index : Nat) :
    store.readPlanned info projection config.scan
        (splitOf config info (.keyRange range, conditions) index) =
      .ok ((splitOf config info (.keyRange range, conditions) index).share stored.rows.values
        (ScanRequest.under info conditions projection columns false)) := by
  rw [Store.readPlanned, buildRequest_eq_ok hcolumns config.scan rfl]
  change store.scan info.qualified _ = _
  rw [Store.scan, hstored]
  refine congrArg Except.ok (List.filterMap_congr ?_)
  intro row hrow
  rw [List.mem_filter, decide_eq_true_eq] at hrow
  exact read_of_mem_hull (hrange row.key hrow.2)

private theorem mem_hull_of_cover {ranges : List KeyRange} {hull : KeyRange} {salted : Key → Bool}
    (hcover : ∀ key, KeyRange.coverCount ranges key = if key ∈ hull ∧ salted key then 1 else 0)
    {range : KeyRange} (hrange : range ∈ ranges) {key : Key} (hkey : key ∈ range) :
    key ∈ hull := by
  have hpos : 0 < KeyRange.coverCount ranges key :=
    List.countP_pos_iff.mpr ⟨range, hrange, by simpa using hkey⟩
  rw [hcover] at hpos
  split at hpos
  · rename_i hadmitted
    exact hadmitted.1
  · simp at hpos

/-- As nothing is read outside the hull, what the hull and the salt admit is what is read under the
salt. -/
theorem filterMap_filter_admitted {constraint : Constraint} (hordered : constraint.Ordered)
    (rows : List Row) :
    (rows.filter fun row =>
        row.key ∈ (KeyBounds.ofConditions constraint.conditions info).keyRange ∧
          info.admitsSalt row.key).filterMap
      (ScanRequest.under info constraint.conditions projection columns false).read =
    (rows.filterMap
      (ScanRequest.under info constraint.conditions projection columns false).read).filter
        fun row => info.admitsSalt row.key := by
  have hfilter : (rows.filter fun row =>
      row.key ∈ (KeyBounds.ofConditions constraint.conditions info).keyRange ∧
        info.admitsSalt row.key) =
      (rows.filter fun row => info.admitsSalt row.key).filter fun row =>
        row.key ∈ (KeyBounds.ofConditions constraint.conditions info).keyRange := by
    rw [List.filter_filter]
    simp only [Bool.decide_and, Bool.decide_eq_true]
  rw [hfilter, filterMap_filter_hull hordered, filter_filterMap_read]

/-- Key-range reads agree with one scan of the table: all splits of the plan together return the
rows that one scan without bounds returns under all conditions, each as often as it does. On a salted
table these are the rows under the salt. -/
theorem keyRange_reads_perm_scan (hconfig : config.fault? = none) (hinfo : info.validate = .ok ())
    (hsalt : ∀ salt ∈ info.salt, salt.Valid)
    {constraint : Constraint} (hordered : constraint.Ordered)
    (hcomponent : ∀ component ∈ info.rowKeyFormat.components.head?,
      ∀ c ∈ constraint.conditions, c.isEqualityOn component = false)
    (hstrategy : selectStrategy config constraint.conditions info = .keyRange)
    (hprojection : info.Knows projection)
    (hstored : store.tables.find? info.qualified = some stored)
    {shuffle : List Split → List Split} (hshuffle : ∀ splits, (shuffle splits).Perm splits)
    {σ : Type} (source : RegionSource σ) (state : σ) :
    ∃ splits rows whole,
      planWith config source shuffle constraint.conditions info state = (.ok splits, state) ∧
      store.readAll info projection config.scan splits = .ok rows ∧
      store.scanWhole info projection constraint.conditions = .ok whole ∧
      rows.Perm (whole.filter fun row => info.admitsSalt row.key) := by
  obtain ⟨columns, hcolumns⟩ := exists_columns hprojection
  obtain ⟨ranges, hranges, hcover⟩ :=
    exists_planKeyRanges (Config.saltBucketCount_ne_zero hconfig) hsalt
      (texts_usablePrefixes_eq_nil config.planner hcomponent)
  obtain ⟨units, hunits⟩ : ∃ units : List PlannedUnit,
      units = ranges.map fun range => (.keyRange range, constraint.conditions) := ⟨_, rfl⟩
  have hplan : planWith config source shuffle constraint.conditions info state =
      (.ok (shuffle (splitsOf config info units)), state) := by
    simp only [planWith, hinfo, planUnits, hstrategy, rangeUnits, hranges, hunits]
    rfl
  have hread : ∀ unit ∈ units, ∀ index, ∃ returned,
      store.readPlanned info projection config.scan (splitOf config info unit index) =
        .ok returned ∧
      returned.Perm ((splitOf config info unit index).share stored.rows.values
        (ScanRequest.under info constraint.conditions projection columns false)) := by
    intro unit hunit index
    obtain ⟨range, hrange, rfl⟩ := List.mem_map.mp (hunits ▸ hunit)
    exact ⟨_, readPlanned_keyRange hcolumns hstored
      (fun key hkey => mem_hull_of_cover hcover hrange hkey) index, List.Perm.refl _⟩
  -- Coverage says how many ranges hold a key, so how many splits return its row.
  have hcount : ∀ row ∈ stored.rows.values,
      (units.countP fun unit => unit.1.holds row.key) =
        if decide (row.key ∈ (KeyBounds.ofConditions constraint.conditions info).keyRange ∧
          info.admitsSalt row.key) then 1 else 0 := by
    intro row _
    simp only [hunits, List.countP_map, decide_eq_true_eq]
    exact hcover row.key
  obtain ⟨rows, hrows, hperm⟩ := exists_readAll_units
    (q := fun key => key ∈ (KeyBounds.ofConditions constraint.conditions info).keyRange ∧
      info.admitsSalt key) hread hcount (hshuffle _)
  rw [filterMap_filter_admitted hordered] at hperm
  exact ⟨_, rows, _, hplan, hrows, scanWhole_eq_ok hcolumns hstored, hperm⟩

theorem keyRange_reads_perm_scan_visits :
    ∃ splits rows whole,
      planWith {} noSnapshots List.reverse largeVisits.conditions visits () = (.ok splits, ()) ∧
      visitStore.readAll visits ["visit", "size"] {} splits = .ok rows ∧
      visitStore.scanWhole visits ["visit", "size"] largeVisits.conditions = .ok whole ∧
      rows.Perm (whole.filter fun row => visits.admitsSalt row.key) := by
  refine keyRange_reads_perm_scan (by decide) (by decide) ?_ largeVisits_ordered
    (by decide) (by decide) visits_knows rfl (fun _ => List.reverse_perm _) noSnapshots ()
  intro salt hsalt
  obtain rfl := Option.some.inj hsalt
  exact ⟨by simp [Salt.ofRanges, Salt.overlap?], by decide⟩

end KeyScan
