import KeyScan.Proofs.Constraint.Texts
import KeyScan.Proofs.Reads.Batches

/-! # Single row keys beside ranges of them

One equality on the row key makes a plan by batches, and batches look up the keys that equalities
name. Where a domain of the row key has ranges beside single values, the rows in the ranges are not
read. -/

namespace KeyScan

open Planning

variable {info : TableMeta} {projection : List String} {columns : List CellAddress}
  {config : Config} {store : Store} {stored : StoredTable} {conditions : List Condition}

/-! ### All batches -/

/-- The batches of a plan return the rows with wanted keys, each once. -/
theorem exists_readAll_batches (hcolumns : info.Projects projection columns)
    (hstored : store.tables.find? info.qualified = some stored) (hordered : stored.WellFormed)
    {splits : List Split}
    (hsplits : splits.Perm (splitsOf config info (batchUnits config.planner conditions info))) :
    ∃ rows, store.readAll info projection config.scan splits = .ok rows ∧
      rows.Perm ((stored.rows.values.filter fun row =>
          ((wantedKeys conditions info).map Prod.fst).contains row.key).filterMap
        (ScanRequest.under info conditions projection columns true).read) := by
  have hread : ∀ unit ∈ batchUnits config.planner conditions info, ∀ index, ∃ returned,
      store.readPlanned info projection config.scan (splitOf config info unit index) =
        .ok returned ∧
      returned.Perm ((splitOf config info unit index).share stored.rows.values
        (ScanRequest.under info conditions projection columns true)) := by
    intro unit hunit index
    obtain ⟨chunk, hchunk, rfl⟩ := List.mem_map.mp hunit
    have hsublist := List.sublist_flatten_of_mem hchunk
    rw [flatten_chunks] at hsublist
    exact readPlanned_lookups hstored hordered hcolumns hsublist index
  have hcount : ∀ row ∈ stored.rows.values,
      ((batchUnits config.planner conditions info).countP fun unit => unit.1.holds row.key) =
        if ((wantedKeys conditions info).map Prod.fst).contains row.key then 1 else 0 := by
    intro row _
    rw [batchUnits, List.countP_map]
    exact countP_chunks_wantedKeys row.key
  exact exists_readAll_units hread hcount hsplits

/-! ### Domains of the row key -/

/-- One of the ranges is a single value, and the key is its text. -/
def NamesKey (ranges : List ValueRange) (key : Key) : Prop :=
  ∃ range ∈ ranges, ∃ value ∈ range.singleValue?, key = value.key

instance (ranges : List ValueRange) (key : Key) : Decidable (NamesKey ranges key) :=
  inferInstanceAs (Decidable (∃ range ∈ ranges, ∃ value ∈ range.singleValue?, key = value.key))

variable {ranges : List ValueRange} {key : Key}

theorem equality_mem_rowKeyIn_iff {type : ColumnType} {c : Condition} :
    c ∈ (info.rowKeyIn type ranges).conditions ∧ c.isEqualityOn info.rowKeyColumn = true ↔
      ∃ range ∈ ranges, ∃ value ∈ range.singleValue?,
        c = ⟨info.rowKeyColumn, .eq, value, type⟩ := by
  have hequality : c ∈ (info.rowKeyIn type ranges).conditions →
      (c.isEqualityOn info.rowKeyColumn = true ↔ c.operator = .eq) := by
    intro hc
    simp [Condition.isEqualityOn, TableMeta.column_of_mem_rowKeyIn hc]
  rw [and_congr_right hequality, TableMeta.conditions_rowKeyIn]
  simp only [List.mem_flatMap, ← ValueRange.equality_mem_conditions_iff]
  constructor
  · rintro ⟨⟨range, hrange, hc⟩, heq⟩
    exact ⟨range, hrange, hc, heq⟩
  · rintro ⟨range, hrange, hc, heq⟩
    exact ⟨⟨range, hrange, hc⟩, heq⟩

/-- The wanted keys of a domain are those that its single values name. -/
theorem mem_wantedKeys_rowKeyIn {type : ColumnType} :
    key ∈ (wantedKeys (info.rowKeyIn type ranges).conditions info).map Prod.fst ↔
      NamesKey ranges key := by
  rw [map_fst_wantedKeys, List.mem_eraseDups, List.mem_map]
  simp only [List.mem_filter, equality_mem_rowKeyIn_iff, NamesKey]
  constructor
  · rintro ⟨_, ⟨range, hrange, value, hvalue, rfl⟩, rfl⟩
    exact ⟨range, hrange, value, hvalue, rfl⟩
  · rintro ⟨range, hrange, value, hvalue, rfl⟩
    exact ⟨_, ⟨range, hrange, value, hvalue, rfl⟩, rfl⟩

/-- A text key of the domain is named by a single value or lies in a proper range. -/
theorem exists_admitsText_iff :
    (∃ range ∈ ranges, range.AdmitsText .varchar key) ↔
      NamesKey ranges key ∨
        ∃ range ∈ ranges, range.singleValue? = none ∧ range.AdmitsKey key := by
  have hrange : ∀ range : ValueRange, range.AdmitsText .varchar key ↔
      (∃ value ∈ range.singleValue?, key = value.key) ∨
        range.singleValue? = none ∧ range.AdmitsKey key := by
    intro range
    cases hsingle : range.singleValue? with
    | some value =>
        simp [ValueRange.admitsText_of_singleValue? hsingle, Scalar.convert?_varchar]
    | none => simp [ValueRange.admitsText_of_proper hsingle]
  simp only [hrange, NamesKey, and_or_left, exists_or]

/-- Where single values stand beside ranges, the keys of the rows that the plan returns are the
stored keys that single values name, each once. So no row of the domain is lost exactly if the rows
in the ranges are named by single values too. -/
theorem mixedRowKey_reads_all_iff (hinfo : info.validate = .ok ())
    (hsingle : ∃ range ∈ ranges, range.singleValue?.isSome)
    (hprojection : info.Knows projection) (hreachable : store.Reachable)
    (hstored : store.tables.find? info.qualified = some stored)
    {shuffle : List Split → List Split} (hshuffle : ∀ splits, (shuffle splits).Perm splits)
    {σ : Type} (source : RegionSource σ) (state : σ) :
    ∃ splits rows,
      planWith config source shuffle (info.rowKeyIn .varchar ranges).conditions info state =
        (.ok splits, state) ∧
      store.readAll info projection config.scan splits = .ok rows ∧
      (rows.map Row.key).Perm
        ((stored.rows.values.map Row.key).filter fun key => NamesKey ranges key) ∧
      ((∀ row ∈ stored.rows.values, (∃ range ∈ ranges, range.AdmitsText .varchar row.key) →
          row.key ∈ rows.map Row.key) ↔
        ∀ row ∈ stored.rows.values,
          (∃ range ∈ ranges, range.singleValue? = none ∧ range.AdmitsKey row.key) →
            NamesKey ranges row.key) := by
  obtain ⟨columns, hcolumns⟩ := exists_columns hprojection
  have hequality : ∃ c ∈ (info.rowKeyIn .varchar ranges).conditions,
      c.isEqualityOn info.rowKeyColumn = true := by
    obtain ⟨range, hrange, hsome⟩ := hsingle
    obtain ⟨value, hvalue⟩ := Option.isSome_iff_exists.mp hsome
    exact ⟨_, equality_mem_rowKeyIn_iff.mpr ⟨range, hrange, value, hvalue, rfl⟩⟩
  have hsplits := hshuffle (splitsOf config info
    (batchUnits config.planner (info.rowKeyIn .varchar ranges).conditions info))
  obtain ⟨rows, hrows, hperm⟩ := exists_readAll_batches hcolumns hstored
    (hreachable.wellFormed.find? hstored) hsplits
  have hkeys : (rows.map Row.key).Perm
      ((stored.rows.values.map Row.key).filter fun key => NamesKey ranges key) := by
    refine (hperm.map Row.key).trans (List.Perm.of_eq ?_)
    rw [map_key_filterMap_read fun row _ =>
      ScanRequest.isSome_read_under_true (fun _ => TableMeta.column_of_mem_rowKeyIn) row,
      List.filter_map]
    refine congrArg _ (List.filter_congr fun row _ => ?_)
    rw [Bool.eq_iff_iff, List.contains_iff_mem, mem_wantedKeys_rowKeyIn]
    simp
  refine ⟨_, rows, planWith_of_equality hinfo hequality, hrows, hkeys, ?_⟩
  simp only [exists_admitsText_iff, hkeys.mem_iff, List.mem_filter, decide_eq_true_eq]
  constructor
  · intro hall row hrow hranges
    exact (hall row hrow (Or.inr hranges)).2
  · intro hnamed row hrow hadmits
    exact ⟨List.mem_map_of_mem hrow, hadmits.elim id (hnamed row hrow)⟩

/-- Visits without salt. -/
def plainVisits : TableMeta :=
  { visits with salt := none }

/-- One visit by its key, and all visits from a key on. -/
def visitAndFrom (key : String) : List ValueRange :=
  [.single (.varchar "a-cz-1"), .atLeast (.varchar key)]

/-- No visit is stored from `x` on. -/
theorem mixedRowKey_reads_all_visits :
    ∃ stored splits rows,
      visitStore.tables.find? "web:visits" = some stored ∧
      planWith {} noSnapshots List.reverse
        (plainVisits.rowKeyIn .varchar (visitAndFrom "x")).conditions plainVisits () =
          (.ok splits, ()) ∧
      visitStore.readAll plainVisits ["visit", "size"] {} splits = .ok rows ∧
      ∀ row ∈ stored.rows.values,
        (∃ range ∈ visitAndFrom "x", range.AdmitsText .varchar row.key) →
          row.key ∈ rows.map Row.key := by
  obtain ⟨stored, hstored⟩ : ∃ stored, visitStore.tables.find? "web:visits" = some stored :=
    ⟨_, rfl⟩
  obtain ⟨splits, rows, hplan, hrows, _, hall⟩ :=
    @mixedRowKey_reads_all_iff plainVisits ["visit", "size"] {} visitStore stored
      (visitAndFrom "x") (by decide) (by decide) visits_knows
      (.write .empty (.putRows "web:visits" _)) hstored _ (fun _ => List.reverse_perm _) _
      noSnapshots ()
  refine ⟨stored, splits, rows, hstored, hplan, hrows, hall.mpr ?_⟩
  have hbelow : ∀ row ∈ stored.rows.values, ¬ Key.ofText "x" ≤ row.key := by
    obtain rfl := Option.some.inj hstored
    decide
  rintro row hrow ⟨range, hrange, hproper, hadmits⟩
  rcases List.mem_pair.mp hrange with rfl | rfl
  · simp [ValueRange.single, ValueRange.singleValue?, Scalar.same] at hproper
  · exact absurd hadmits.1 (hbelow row hrow)

/-- Visits from `b` on are stored, but only the visit by its key is returned. -/
theorem mixedRowKey_not_reads_all :
    plainVisits.validate = .ok () ∧ ∃ stored splits rows,
      visitStore.tables.find? "web:visits" = some stored ∧
      planWith {} noSnapshots List.reverse
        (plainVisits.rowKeyIn .varchar (visitAndFrom "b")).conditions plainVisits () =
          (.ok splits, ()) ∧
      visitStore.readAll plainVisits ["visit", "size"] {} splits = .ok rows ∧
      visit "b-de-2" 8 ∈ stored.rows.values ∧
      (∃ range ∈ visitAndFrom "b", range.AdmitsText .varchar (visit "b-de-2" 8).key) ∧
      (visit "b-de-2" 8).key ∉ rows.map Row.key := by
  have hrange : (ValueRange.atLeast (.varchar "b")).AdmitsText .varchar (visit "b-de-2" 8).key :=
    ⟨(by decide : Key.ofText "b" ≤ Key.ofText "b-de-2"), trivial⟩
  refine ⟨by decide, _, _, _, rfl, rfl, rfl, by decide, ⟨_, ?_, hrange⟩, by decide⟩
  simp [visitAndFrom]

end KeyScan
