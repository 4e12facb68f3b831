import KeyScan.Planning.Planner
import KeyScan.Planning.Requests
import KeyScan.Proofs.Filter.Compile
import KeyScan.Proofs.Lists
import KeyScan.Proofs.Planning.KeyBounds

/-! # Reading by splits and reading at once

A read is carried out split by split; what it should come to is one scan of the whole table with
every condition in the filter. -/

namespace KeyScan

open Planning

namespace Store

/-- Reads a split by the request that is built for it. -/
def readPlanned (store : Store) (info : TableMeta) (projection : List String) (scan : ScanConfig)
    (split : Split) : Except Error (List Row) := do
  let request ← buildRequest split projection info scan
  store.readSplit split request

/-- Reads all splits. -/
def readAll (store : Store) (info : TableMeta) (projection : List String) (scan : ScanConfig)
    (splits : List Split) : Except Error (List Row) :=
  (splits.mapM (store.readPlanned info projection scan)).map List.flatten

/-- One scan without bounds, with every condition left to the filter. -/
def scanWhole (store : Store) (info : TableMeta) (projection : List String)
    (conditions : List Condition) : Except Error (List Row) := do
  let columns ←
    (projection.filter fun name => name ≠ info.rowKeyColumn).mapM (projectedCell info)
  store.scan info.qualified
    { columns, filter := ScanFilter.compile info conditions projection false }

end Store

/-- The key is one of those that the unit reads. -/
def ScanUnit.holds (key : Key) : ScanUnit → Bool
  | .batchGet keys => keys.contains key
  | .keyRange range => key ∈ range
  | .regionLocal _ region _ => key ∈ region.keyRange

/-- What a split should return of some rows: those that its unit holds, as one request reads them
everywhere. -/
def Split.share (rows : List Row) (request : ScanRequest) (split : Split) : List Row :=
  (rows.filter fun row => split.unit.holds row.key).filterMap request.read

/-- Every projected column is one of the table's, or the row key. -/
def TableMeta.Knows (info : TableMeta) (projection : List String) : Prop :=
  ∀ name ∈ projection, name ≠ info.rowKeyColumn → (info.column? name).isSome

/-- The cells of the projected columns. -/
abbrev TableMeta.Projects (info : TableMeta) (projection : List String)
    (columns : List CellAddress) : Prop :=
  (projection.filter fun name => name ≠ info.rowKeyColumn).mapM (projectedCell info) = .ok columns

/-! ### Requests of known columns -/

variable {info : TableMeta} {projection : List String} {conditions : List Condition}

theorem exists_columns (h : info.Knows projection) :
    ∃ columns, info.Projects projection columns := by
  refine ⟨_, mapM_eq_ok (g := fun name => ⟨(info.family? name).getD "", name⟩) ?_⟩
  intro name hname
  rw [List.mem_filter, decide_eq_true_eq] at hname
  obtain ⟨column, hcolumn⟩ := Option.isSome_iff_exists.mp (h name hname.1 hname.2)
  simp [projectedCell, TableMeta.family?, hcolumn]

variable {columns : List CellAddress}

theorem buildRequest_eq_ok (hcolumns : info.Projects projection columns)
    (scan : ScanConfig) {split : Split} (hsplit : split.rowKeyColumn = info.rowKeyColumn) :
    buildRequest split projection info scan =
      .ok { ScanRequest.under info split.conditions projection columns
              (isRowKeyEncoded split info) with
            caching := scan.caching, range := readRange split info } := by
  rw [buildRequest, hsplit, hcolumns]
  rfl

theorem scanWhole_eq_ok (hcolumns : info.Projects projection columns)
    {store : Store} {stored : StoredTable}
    (hstored : store.tables.find? info.qualified = some stored) :
    store.scanWhole info projection conditions =
      .ok (stored.rows.values.filterMap
        (ScanRequest.under info conditions projection columns false).read) := by
  rw [Store.scanWhole, hcolumns]
  change store.scan _ _ = _
  rw [Store.scan, hstored]
  simp [Store.scanRows]
  rfl

/-! ### Splits of a plan -/

section Splits

variable {config : Config} {units : List PlannedUnit} {splits : List Split} {store : Store}
  {scan : ScanConfig}

theorem exists_of_mem_splitsOf {split : Split} (h : split ∈ splitsOf config info units) :
    ∃ unit ∈ units, ∃ index, split = splitOf config info unit index := by
  obtain ⟨⟨unit, index⟩, hmem, rfl⟩ := List.mem_map.mp h
  exact ⟨unit, List.fst_mem_of_mem_zipIdx hmem, index, rfl⟩

/-- Neither the numbering nor the order of splits has a part in which of them hold a key. -/
theorem countP_holds_splits (h : splits.Perm (splitsOf config info units)) (key : Key) :
    (splits.countP fun split => split.unit.holds key) =
      units.countP fun unit => unit.1.holds key := by
  calc (splits.countP fun split => split.unit.holds key)
      = (splitsOf config info units).countP fun split => split.unit.holds key := h.countP_eq _
    _ = (units.zipIdx.map Prod.fst).countP fun unit => unit.1.holds key := by
        rw [splitsOf, List.countP_map, List.countP_map]
        rfl
    _ = units.countP fun unit => unit.1.holds key := by rw [List.zipIdx_map_fst]

/-- Splits that each return their share return what is in one of them, once. -/
theorem flatMap_share_perm {rows : List Row} (request : ScanRequest) {q : Key → Bool}
    (h : ∀ row ∈ rows, (splits.countP fun split => split.unit.holds row.key) =
      if q row.key then 1 else 0) :
    (splits.flatMap (Split.share rows request)).Perm
      ((rows.filter fun row => q row.key).filterMap request.read) := by
  unfold Split.share
  rw [← List.filterMap_flatMap]
  exact (flatMap_filter_perm h).filterMap request.read

theorem exists_readAll {returned : Split → List Row}
    (h : ∀ split ∈ splits, ∃ rows,
      store.readPlanned info projection scan split = .ok rows ∧ rows.Perm (returned split)) :
    ∃ rows, store.readAll info projection scan splits = .ok rows ∧
      rows.Perm (splits.flatMap returned) := by
  rw [Store.readAll]
  induction splits with
  | nil => exact ⟨[], rfl, List.Perm.refl []⟩
  | cons split rest ih =>
      obtain ⟨first, hfirst, hfirstPerm⟩ := h split (by simp)
      obtain ⟨others, hothers, hothersPerm⟩ :=
        ih fun other hother => h other (List.mem_cons_of_mem split hother)
      cases hlists : rest.mapM (store.readPlanned info projection scan) with
      | error error => simp [hlists, Except.map] at hothers
      | ok lists =>
          rw [hlists] at hothers
          obtain rfl := Except.ok.inj hothers
          refine ⟨first ++ lists.flatten, ?_, ?_⟩
          · rw [List.mapM_cons, hfirst, hlists]
            rfl
          · rw [List.flatMap_cons]
            exact hfirstPerm.append hothersPerm

/-- Where every unit of a plan returns its share, and a key is in one unit if it is wanted and in
none if not, the splits of the plan return the wanted rows. -/
theorem exists_readAll_units {rows : List Row} {request : ScanRequest} {q : Key → Bool}
    (hread : ∀ unit ∈ units, ∀ index, ∃ returned,
      store.readPlanned info projection scan (splitOf config info unit index) = .ok returned ∧
        returned.Perm ((splitOf config info unit index).share rows request))
    (hcount : ∀ row ∈ rows, (units.countP fun unit => unit.1.holds row.key) =
      if q row.key then 1 else 0)
    (hsplits : splits.Perm (splitsOf config info units)) :
    ∃ returned, store.readAll info projection scan splits = .ok returned ∧
      returned.Perm ((rows.filter fun row => q row.key).filterMap request.read) := by
  have hshare : ∀ split ∈ splits, ∃ returned,
      store.readPlanned info projection scan split = .ok returned ∧
        returned.Perm (split.share rows request) := by
    intro split hsplit
    obtain ⟨unit, hunit, index, rfl⟩ := exists_of_mem_splitsOf (hsplits.mem_iff.mp hsplit)
    exact hread unit hunit index
  obtain ⟨returned, hreturned, hperm⟩ := exists_readAll hshare
  refine ⟨returned, hreturned, hperm.trans (flatMap_share_perm request ?_)⟩
  intro row hrow
  rw [countP_holds_splits hsplits, hcount row hrow]

end Splits

/-! ### Reading and keys -/

/-- Rows may be selected by their keys before they are read or after. -/
theorem filter_filterMap_read (request : ScanRequest) (p : Key → Bool) (rows : List Row) :
    (rows.filterMap request.read).filter (fun row => p row.key) =
      (rows.filter fun row => p row.key).filterMap request.read := by
  induction rows with
  | nil => rfl
  | cons row rest ih =>
      cases hread : request.read row with
      | none => by_cases hp : p row.key = true <;> simp [hread, hp, ih]
      | some out =>
          have hkey := ScanRequest.key_of_read hread
          by_cases hp : p row.key = true <;> simp [hread, hp, hkey, ih]

/-- Rows of which nothing is read may be left out. -/
theorem filterMap_filter_read {request : ScanRequest} {p : Key → Bool}
    (h : ∀ row, p row.key = false → request.read row = none) (rows : List Row) :
    (rows.filter fun row => p row.key).filterMap request.read =
      rows.filterMap request.read := by
  rw [List.filterMap_filter]
  apply List.filterMap_congr
  intro row _
  cases hp : p row.key with
  | true => rfl
  | false => exact (h row hp).symm

theorem map_key_filterMap_read_sublist (request : ScanRequest) (rows : List Row) :
    ((rows.filterMap request.read).map Row.key).Sublist (rows.map Row.key) := by
  induction rows with
  | nil => exact List.Sublist.refl []
  | cons row rest ih =>
      cases hread : request.read row with
      | none => simpa [hread] using ih.cons row.key
      | some out => simpa [hread, ScanRequest.key_of_read hread] using ih

/-- Where each row is read, so is each key. -/
theorem map_key_filterMap_read {request : ScanRequest} {rows : List Row}
    (h : ∀ row ∈ rows, (request.read row).isSome) :
    (rows.filterMap request.read).map Row.key = rows.map Row.key := by
  induction rows with
  | nil => rfl
  | cons row rest ih =>
      obtain ⟨out, hread⟩ := Option.isSome_iff_exists.mp (h row (by simp))
      have hrest := ih fun other hother => h other (List.mem_cons_of_mem row hother)
      rw [List.filterMap_cons, hread, List.map_cons, List.map_cons,
        ScanRequest.key_of_read hread, hrest]

/-! ### Rows under the hull -/

section Hull

variable {constraint : Constraint} {row : Row}

/-- Within the hull a row is read the same with and without the row key in the filter, where the
hull is exact. -/
theorem read_of_mem_hull
    (hrow : row.key ∈ (KeyBounds.ofConditions conditions info).keyRange) :
    (ScanRequest.under info conditions projection columns
        (KeyBounds.isExact conditions info)).read row =
      (ScanRequest.under info conditions projection columns false).read row := by
  cases hexact : KeyBounds.isExact conditions info with
  | true =>
      have hadmits := (KeyBounds.mem_keyRange_iff_admitsRowKey hexact row).mp hrow
      rw [ScanRequest.read_under_false, if_pos hadmits]
  | false => rfl

theorem read_of_not_mem_hull (h : constraint.Ordered)
    (hrow : row.key ∉ (KeyBounds.ofConditions constraint.conditions info).keyRange) :
    (ScanRequest.under info constraint.conditions projection columns false).read row = none := by
  have hadmits : ¬ ScanFilter.admitsRowKey info constraint.conditions row = true :=
    fun hadmits => hrow (KeyBounds.mem_keyRange_of_admitsRowKey h hadmits)
  rw [ScanRequest.read_under_false, if_neg hadmits]

/-- Nothing is read outside the hull. -/
theorem filterMap_filter_hull (h : constraint.Ordered) (rows : List Row) :
    (rows.filter fun row =>
        row.key ∈ (KeyBounds.ofConditions constraint.conditions info).keyRange).filterMap
      (ScanRequest.under info constraint.conditions projection columns false).read =
    rows.filterMap
      (ScanRequest.under info constraint.conditions projection columns false).read := by
  apply filterMap_filter_read
    (p := fun key => key ∈ (KeyBounds.ofConditions constraint.conditions info).keyRange)
  intro row hrow
  exact read_of_not_mem_hull h (of_decide_eq_false hrow)

end Hull

/-! ### A table to read -/

/-- Visits by country and user, each after one of two salt bytes. -/
def visits : TableMeta where
  schema := "web"
  table := "visits"
  rowKeyColumn := "visit"
  rowKeyFormat := ⟨["country", "user"], "-"⟩
  salt := some ⟨[⟨97, 98⟩]⟩
  columns := [.rowKey "visit", .ofFamily "d" "size" .integer]

def visit (key : String) (size : UInt8) : Row :=
  ⟨Key.ofText key, ⟨[(⟨"d", "size"⟩, [0, 0, 0, size])]⟩⟩

/-- Three visits under the salt and one that is not. -/
def visitStore : Store :=
  ({} : Store).putRows "web:visits"
    [visit "b-de-2" 8, visit "a-cz-1" 7, visit "b-cz-3" 9, visit "c-cz-4" 9]

/-- Large visits in two ranges of keys, whose hull is not exact. -/
def largeVisits : Constraint :=
  .columns ⟨[("size", ⟨.integer, .ranges [.atLeast (.varchar "8")]⟩),
    ("visit", ⟨.varchar, .ranges
      [.lessThan (.varchar "a-d"), .between (.varchar "b-d") (.varchar "c")]⟩)]⟩

theorem largeVisits_ordered : largeVisits.Ordered :=
  ⟨List.pairwise_pair.mpr (by decide), by
    simp [Domain.Ascending, ValueRange.Ascending, ValueRange.lessThan, ValueRange.between]⟩

theorem visits_knows : visits.Knows ["visit", "size"] := by
  simp [TableMeta.Knows, visits, TableMeta.column?, Column.rowKey, Column.ofFamily]

end KeyScan
