import KeyScan.Proofs.Planning.Chunks
import KeyScan.Proofs.Reads.Basic
import KeyScan.Proofs.Store.Runs

/-! # Batch reads

Looking up the keys that equalities name, batch by batch, gives the rows of one scan of the whole
table, each once. -/

namespace KeyScan

open Planning

/-! ### Looking up keys -/

/-- In a table in order, the rows with a key are the one that stands under it. -/
theorem filter_key_eq_find? {stored : StoredTable} (h : stored.WellFormed) (key : Key) :
    (stored.rows.values.filter fun row => row.key = key) = (stored.rows.find? key).toList := by
  have hsorted := h.sorted
  have hkeyed := h.keyed
  rw [OrderedMap.Sorted] at hsorted
  rw [OrderedMap.values, OrderedMap.find?]
  generalize stored.rows.entries = entries at hsorted hkeyed ⊢
  induction entries with
  | nil => rfl
  | cons entry rest ih =>
      obtain ⟨hhead, htail⟩ := List.pairwise_cons.mp hsorted
      have hentry : entry.2.key = entry.1 := hkeyed entry (by simp)
      have hrest := ih htail fun other hother => hkeyed other (List.mem_cons_of_mem entry hother)
      -- Keys ascend, so once a key is met no later row has it.
      by_cases hkey : entry.1 = key
      · have hnone : (rest.map Prod.snd).filter (fun row => decide (row.key = key)) = [] := by
          rw [List.filter_eq_nil_iff]
          intro row hrow
          obtain ⟨other, hother, rfl⟩ := List.mem_map.mp hrow
          have hlt := hhead other hother
          have hne : other.1 ≠ key := by grind
          simpa [hkeyed other (List.mem_cons_of_mem entry hother)] using hne
        rw [List.map_cons, List.filter_cons, hnone]
        simp [hentry, hkey]
      · rw [List.map_cons, List.filter_cons, hrest]
        simp [hentry, hkey]

/-- Distinct keys look up the rows whose keys they are. -/
theorem filterMap_find?_perm {stored : StoredTable} (h : stored.WellFormed) {keys : List Key}
    (hkeys : keys.Nodup) :
    (keys.filterMap stored.rows.find?).Perm
      (stored.rows.values.filter fun row => keys.contains row.key) := by
  have hpieces : keys.filterMap stored.rows.find? =
      keys.flatMap fun key => stored.rows.values.filter fun row => row.key = key := by
    rw [List.filterMap_eq_flatMap_toList]
    simp only [filter_key_eq_find? h]
  rw [hpieces]
  apply flatMap_filter_perm
  intro row _
  calc (keys.countP fun key => decide (row.key = key))
      = keys.count row.key := by
        rw [List.count_eq_countP]
        apply List.countP_congr
        intro key _
        rw [decide_eq_true_eq, beq_iff_eq]
        exact eq_comm
    _ = if keys.contains row.key then 1 else 0 := by
        simp only [hkeys.count, List.contains_iff_mem]

/-! ### One batch -/

section Batch

variable {info : TableMeta} {projection : List String} {columns : List CellAddress}
  {config : Config} {scan : ScanConfig} {store : Store} {stored : StoredTable}
  {conditions : List Condition}

/-- The row-key filter of equalities admits the wanted keys. -/
theorem admitsRowKey_eq_contains
    (hequality : ∀ c ∈ conditions, c.column = info.rowKeyColumn → c.operator = .eq)
    (hsome : conditionsOn info.rowKeyColumn conditions ≠ []) (row : Row) :
    ScanFilter.admitsRowKey info conditions row =
      ((wantedKeys conditions info).map Prod.fst).contains row.key := by
  have hoperators : ∀ c ∈ conditionsOn info.rowKeyColumn conditions, c.operator = .eq := by
    intro c hc
    rw [mem_conditionsOn_iff] at hc
    exact hequality c hc.1 hc.2
  rw [Bool.eq_iff_iff, ScanFilter.admitsRowKey,
    ScanFilter.rowKeyGroup_accepts_iff_of_equalities hoperators hsome, List.contains_iff_mem,
    map_fst_wantedKeys, List.mem_eraseDups, filter_isEqualityOn hequality, List.mem_map]
  simp only [eq_comm]

/-- A batch takes nothing away from the conditions on other columns. -/
theorem filter_batchConditions {chunk : List (Key × Condition)}
    (hchunk : ∀ wanted ∈ chunk, wanted.2.isEqualityOn info.rowKeyColumn = true) :
    ((chunk.map Prod.snd ++ conditions.filter fun c => c.column ≠ info.rowKeyColumn).filter
        fun c => c.column ≠ info.rowKeyColumn) =
      conditions.filter fun c => c.column ≠ info.rowKeyColumn := by
  have hnone : ((chunk.map Prod.snd).filter fun c => c.column ≠ info.rowKeyColumn) = [] := by
    rw [List.filter_eq_nil_iff]
    intro c hc
    obtain ⟨wanted, hwanted, rfl⟩ := List.mem_map.mp hc
    have hequality := hchunk wanted hwanted
    simp only [Condition.isEqualityOn, Bool.and_eq_true, decide_eq_true_eq] at hequality
    simp [hequality.2]
  rw [List.filter_append, hnone, List.nil_append, List.filter_filter]
  simp only [Bool.and_self]

theorem isRowKeyEncoded_batch {chunk : List (Key × Condition)}
    (hchunk : ∀ wanted ∈ chunk, wanted.2.isEqualityOn info.rowKeyColumn = true) (index : Nat) :
    isRowKeyEncoded (splitOf config info
      (batchUnit (conditions.filter fun c => c.column ≠ info.rowKeyColumn) chunk) index) info =
        true := by
  change (conditionsOn info.rowKeyColumn (chunk.map Prod.snd ++
    conditions.filter fun c => c.column ≠ info.rowKeyColumn)).all (fun c => c.operator = .eq) = true
  rw [List.all_eq_true]
  intro c hc
  rw [mem_conditionsOn_iff, List.mem_append] at hc
  obtain ⟨hc | hc, hcolumn⟩ := hc
  · obtain ⟨wanted, hwanted, rfl⟩ := List.mem_map.mp hc
    have hequality := hchunk wanted hwanted
    simp only [Condition.isEqualityOn, Bool.and_eq_true] at hequality
    exact hequality.1
  · simp [hcolumn] at hc

/-- A batch looks up its share of what is read of the rows without regard to their keys. -/
theorem readPlanned_lookups (hstored : store.tables.find? info.qualified = some stored)
    (hordered : stored.WellFormed)
    (hcolumns : info.Projects projection columns)
    {chunk : List (Key × Condition)} (hchunk : chunk.Sublist (wantedKeys conditions info))
    (index : Nat) :
    ∃ rows, store.readPlanned info projection scan (splitOf config info
        (batchUnit (conditions.filter fun c => c.column ≠ info.rowKeyColumn) chunk) index) =
          .ok rows ∧
      rows.Perm ((splitOf config info
        (batchUnit (conditions.filter fun c => c.column ≠ info.rowKeyColumn) chunk)
          index).share stored.rows.values
            (ScanRequest.under info conditions projection columns true)) := by
  have hequality : ∀ wanted ∈ chunk, wanted.2.isEqualityOn info.rowKeyColumn = true :=
    fun wanted hwanted => isEqualityOn_of_mem_wantedKeys (hchunk.subset hwanted)
  have hkeys : (chunk.map Prod.fst).Nodup :=
    (nodup_wantedKeys conditions info).sublist (hchunk.map Prod.fst)
  have hrequest : ScanRequest.under info (chunk.map Prod.snd ++
      conditions.filter fun c => c.column ≠ info.rowKeyColumn) projection columns true =
        ScanRequest.under info conditions projection columns true :=
    ScanRequest.under_true_congr (filter_batchConditions hequality)
  have hlookups : store.readPlanned info projection scan (splitOf config info
      (batchUnit (conditions.filter fun c => c.column ≠ info.rowKeyColumn) chunk) index) =
        .ok (((chunk.map Prod.fst).filterMap stored.rows.find?).filterMap
          (ScanRequest.under info conditions projection columns true).read) := by
    rw [Store.readPlanned, buildRequest_eq_ok hcolumns scan rfl, isRowKeyEncoded_batch hequality,
      ← hrequest]
    change store.multiGet info.qualified (chunk.map Prod.fst) _ = _
    rw [Store.multiGet, hstored]
    rfl
  exact ⟨_, hlookups, (filterMap_find?_perm hordered hkeys).filterMap _⟩

/-- A batch looks up its share of what a scan of the whole table returns. -/
theorem readPlanned_batch (hstored : store.tables.find? info.qualified = some stored)
    (hordered : stored.WellFormed)
    (hcolumns : info.Projects projection columns)
    (hadmits : ∀ row, ScanFilter.admitsRowKey info conditions row =
      ((wantedKeys conditions info).map Prod.fst).contains row.key)
    {chunk : List (Key × Condition)} (hchunk : chunk.Sublist (wantedKeys conditions info))
    (index : Nat) :
    ∃ rows, store.readPlanned info projection scan (splitOf config info
        (batchUnit (conditions.filter fun c => c.column ≠ info.rowKeyColumn) chunk) index) =
          .ok rows ∧
      rows.Perm ((splitOf config info
        (batchUnit (conditions.filter fun c => c.column ≠ info.rowKeyColumn) chunk)
          index).share stored.rows.values
            (ScanRequest.under info conditions projection columns false)) := by
  obtain ⟨rows, hrows, hperm⟩ := readPlanned_lookups hstored hordered hcolumns hchunk index
  refine ⟨rows, hrows, hperm.trans (List.Perm.of_eq ?_)⟩
  apply List.filterMap_congr
  intro row hrow
  have hkey : row.key ∈ chunk.map Prod.fst := List.contains_iff_mem.mp (List.mem_filter.mp hrow).2
  have hadmitted : ScanFilter.admitsRowKey info conditions row = true := by
    rw [hadmits, List.contains_iff_mem]
    exact (hchunk.map Prod.fst).subset hkey
  rw [ScanRequest.read_under_false, if_pos hadmitted]

/-! ### All batches -/

/-- An equality on the row key is enough for a plan by batches. -/
theorem planWith_of_equality {σ : Type} {source : RegionSource σ} {state : σ}
    {shuffle : List Split → List Split} (hinfo : info.validate = .ok ())
    (hsome : ∃ c ∈ conditions, c.isEqualityOn info.rowKeyColumn = true) :
    planWith config source shuffle conditions info state =
      (.ok (shuffle (splitsOf config info (batchUnits config.planner conditions info))),
        state) := by
  have hstrategy : selectStrategy config conditions info = .batchGet := by
    rw [selectStrategy, if_pos (List.any_eq_true.mpr hsome)]
  exact planWith_eq_ok_iff.mpr ⟨hinfo, _, by simp only [planUnits, hstrategy], rfl⟩

theorem planWith_batchGet {σ : Type} {source : RegionSource σ} {state : σ}
    {shuffle : List Split → List Split} (hinfo : info.validate = .ok ())
    (hequality : ∀ c ∈ conditions, c.column = info.rowKeyColumn → c.operator = .eq)
    (hsome : conditionsOn info.rowKeyColumn conditions ≠ []) :
    planWith config source shuffle conditions info state =
      (.ok (shuffle (splitsOf config info (batchUnits config.planner conditions info))),
        state) := by
  obtain ⟨c, hc⟩ := List.exists_mem_of_ne_nil _ hsome
  rw [← filter_isEqualityOn hequality, List.mem_filter] at hc
  exact planWith_of_equality hinfo ⟨c, hc⟩

/-- Batch reads agree with one scan of the table: looking up the keys in the batches of the plan
returns the rows that one scan without bounds returns under all conditions, and no key twice. -/
theorem batchGet_reads_perm_scan (hinfo : info.validate = .ok ())
    (hequality : ∀ c ∈ conditions, c.column = info.rowKeyColumn → c.operator = .eq)
    (hsome : conditionsOn info.rowKeyColumn conditions ≠ [])
    (hprojection : info.Knows projection) (hreachable : store.Reachable)
    (hstored : store.tables.find? info.qualified = some stored)
    {shuffle : List Split → List Split} (hshuffle : ∀ splits, (shuffle splits).Perm splits)
    {σ : Type} (source : RegionSource σ) (state : σ) :
    ∃ splits rows whole,
      planWith config source shuffle conditions info state = (.ok splits, state) ∧
      store.readAll info projection config.scan splits = .ok rows ∧
      store.scanWhole info projection conditions = .ok whole ∧
      rows.Perm whole ∧ (rows.map Row.key).Nodup := by
  obtain ⟨columns, hcolumns⟩ := exists_columns hprojection
  have hordered := hreachable.wellFormed.find? hstored
  have hadmits := admitsRowKey_eq_contains hequality hsome
  have hread : ∀ unit ∈ batchUnits config.planner conditions info, ∀ index, ∃ returned,
      store.readPlanned info projection config.scan (splitOf config info unit index) =
        .ok returned ∧
      returned.Perm ((splitOf config info unit index).share stored.rows.values
        (ScanRequest.under info conditions projection columns false)) := by
    intro unit hunit index
    obtain ⟨chunk, hchunk, rfl⟩ := List.mem_map.mp hunit
    have hsublist := List.sublist_flatten_of_mem hchunk
    rw [flatten_chunks] at hsublist
    exact readPlanned_batch hstored hordered hcolumns hadmits hsublist index
  have hcount : ∀ row ∈ stored.rows.values,
      ((batchUnits config.planner conditions info).countP fun unit => unit.1.holds row.key) =
        if ((wantedKeys conditions info).map Prod.fst).contains row.key then 1 else 0 := by
    intro row _
    rw [batchUnits, List.countP_map]
    exact countP_chunks_wantedKeys row.key
  obtain ⟨rows, hrows, hperm⟩ := exists_readAll_units hread hcount (hshuffle _)
  rw [filterMap_filter_read fun row hrow => by
    rw [ScanRequest.read_under_false, hadmits, hrow]
    rfl] at hperm
  refine ⟨_, rows, _, planWith_batchGet hinfo hequality hsome, hrows,
    scanWhole_eq_ok hcolumns hstored, hperm, ?_⟩
  rw [(hperm.map Row.key).nodup_iff]
  exact hordered.nodup_keys.sublist (map_key_filterMap_read_sublist _ _)

/-- Visits by key: one is asked for twice, and one key is the text of two values. -/
def namedVisits : List Condition :=
  [⟨"visit", .eq, .varchar "b-de-2", .varchar⟩, ⟨"visit", .eq, .integer 7, .varchar⟩,
    ⟨"size", .ge, .varchar "8", .integer⟩, ⟨"visit", .eq, .varchar "7", .varchar⟩,
    ⟨"visit", .eq, .varchar "a-cz-1", .varchar⟩, ⟨"visit", .eq, .varchar "b-de-2", .varchar⟩]

theorem batchGet_reads_perm_scan_visits :
    ∃ splits rows whole,
      planWith { planner := { minChunkSize := 1, maxBatches := 2 } } noSnapshots List.reverse
        namedVisits visits () = (.ok splits, ()) ∧
      visitStore.readAll visits ["visit", "size"] {} splits = .ok rows ∧
      visitStore.scanWhole visits ["visit", "size"] namedVisits = .ok whole ∧
      rows.Perm whole ∧ (rows.map Row.key).Nodup :=
  batchGet_reads_perm_scan (by decide) (by decide) (by decide) visits_knows
    (.write .empty (.putRows "web:visits" _)) rfl (fun _ => List.reverse_perm _) noSnapshots ()

end Batch

end KeyScan
