import KeyScan.Proofs.Constraint.Texts
import KeyScan.Proofs.Key.Decimal
import KeyScan.Proofs.Reads.Ranges

/-! # Numbers as row keys

Row keys that are numbers are stored as decimal texts, which are not ordered like the numbers. Such
a key leaves the hull of its conditions open, so the plan is one range of all keys; the filter of
the read then compares the texts with the texts of the bounds. -/

namespace KeyScan

open Planning

/-! ### Ranges of numbers -/

/-- The number of a value of an integer type. -/
def Scalar.number? : Scalar → Option Int
  | .integer value => some value.toInt
  | .bigint value => some value.toInt
  | _ => none

theorem Scalar.key_of_number? {value : Scalar} {n : Int} (h : value.number? = some n) :
    value.key = Key.ofInteger n := by
  cases value <;> simp_all [number?, key, text, Key.ofInteger]

/-- The number is not below the end. -/
def Bound.NumberFrom (n : Int) : Bound → Prop
  | .included value => ∃ least ∈ value.number?, least ≤ n
  | .excluded value => ∃ least ∈ value.number?, least < n
  | .unbounded => True

/-- The number is not above the end. -/
def Bound.NumberUpTo (n : Int) : Bound → Prop
  | .included value => ∃ most ∈ value.number?, n ≤ most
  | .excluded value => ∃ most ∈ value.number?, n < most
  | .unbounded => True

/-- The number lies between the ends of the range. -/
def ValueRange.AdmitsNumber (range : ValueRange) (n : Int) : Prop :=
  range.low.NumberFrom n ∧ range.high.NumberUpTo n

/-- The value of the end, if there is one, is a natural number with so many digits. -/
def Bound.HasWidth (width : Nat) (bound : Bound) : Prop :=
  ∀ value ∈ bound.value?, ∃ n : Nat, value.number? = some (n : Int) ∧
    (Key.ofInteger n).length = width

/-- Both ends have so many digits. -/
def ValueRange.HasWidth (width : Nat) (range : ValueRange) : Prop :=
  range.low.HasWidth width ∧ range.high.HasWidth width

theorem Bound.admitsFrom_iff_numberFrom {bound : Bound} {n : Nat}
    (h : bound.HasWidth (Key.ofInteger n).length) :
    bound.AdmitsFrom (Key.ofInteger n) ↔ bound.NumberFrom n := by
  cases bound with
  | unbounded => rfl
  | included value =>
      obtain ⟨least, hleast, hlength⟩ := h value rfl
      rw [AdmitsFrom, Scalar.key_of_number? hleast, Key.ofInteger_le_iff hlength]
      simp [NumberFrom, hleast]
  | excluded value =>
      obtain ⟨least, hleast, hlength⟩ := h value rfl
      rw [AdmitsFrom, Scalar.key_of_number? hleast, Key.ofInteger_lt_iff hlength]
      simp [NumberFrom, hleast]

theorem Bound.admitsUpTo_iff_numberUpTo {bound : Bound} {n : Nat}
    (h : bound.HasWidth (Key.ofInteger n).length) :
    bound.AdmitsUpTo (Key.ofInteger n) ↔ bound.NumberUpTo n := by
  cases bound with
  | unbounded => rfl
  | included value =>
      obtain ⟨most, hmost, hlength⟩ := h value rfl
      rw [AdmitsUpTo, Scalar.key_of_number? hmost, Key.ofInteger_le_iff hlength.symm]
      simp [NumberUpTo, hmost]
  | excluded value =>
      obtain ⟨most, hmost, hlength⟩ := h value rfl
      rw [AdmitsUpTo, Scalar.key_of_number? hmost, Key.ofInteger_lt_iff hlength.symm]
      simp [NumberUpTo, hmost]

/-- Where a number and the ends of a range have the same number of digits, the text of the number
lies between the texts of the ends if the number lies in the range. -/
theorem ValueRange.admitsKey_iff_admitsNumber {range : ValueRange} {n : Nat}
    (h : range.HasWidth (Key.ofInteger n).length) :
    range.AdmitsKey (Key.ofInteger n) ↔ range.AdmitsNumber n :=
  and_congr (Bound.admitsFrom_iff_numberFrom h.1) (Bound.admitsUpTo_iff_numberUpTo h.2)

/-! ### Plans and reads -/

variable {info : TableMeta} {projection : List String} {columns : List CellAddress}
  {config : Config} {store : Store} {stored : StoredTable} {type : ColumnType}
  {ranges : List ValueRange}

theorem isEqualityOn_of_mem_rowKeyIn (hproper : ∀ range ∈ ranges, range.singleValue? = none)
    {c : Condition} (hc : c ∈ (info.rowKeyIn type ranges).conditions) (column : String) :
    c.isEqualityOn column = false := by
  rw [TableMeta.conditions_rowKeyIn] at hc
  obtain ⟨range, hrange, hc⟩ := List.mem_flatMap.mp hc
  have hoperator := ValueRange.operator_ne_eq_of_proper (hproper range hrange) hc
  simp [Condition.isEqualityOn, hoperator]

/-- Without salt, ranges of keys that are not texts are planned as one range of all keys. -/
theorem planWith_unbounded (hinfo : info.validate = .ok ()) (hsalt : info.salt = none)
    (htype : info.rowKeyType ≠ .varchar)
    (hregion : config.regionLocal.allows info.qualified = false)
    (hproper : ∀ range ∈ ranges, range.singleValue? = none)
    {shuffle : List Split → List Split} (hshuffle : ∀ splits, (shuffle splits).Perm splits)
    {σ : Type} (source : RegionSource σ) (state : σ) :
    planWith config source shuffle (info.rowKeyIn type ranges).conditions info state =
      (.ok [splitOf config info
        (.keyRange .unbounded, (info.rowKeyIn type ranges).conditions) 0], state) := by
  have hstrategy : selectStrategy config (info.rowKeyIn type ranges).conditions info =
      .keyRange := by
    have hnone : ((info.rowKeyIn type ranges).conditions.any fun c =>
        c.isEqualityOn info.rowKeyColumn) = false :=
      List.any_eq_false.mpr fun c hc => by simp [isEqualityOn_of_mem_rowKeyIn hproper hc]
    simp [selectStrategy, hnone, hregion]
  have htexts : (usablePrefixes (info.rowKeyIn type ranges).conditions info
      config.planner).texts = [] :=
    texts_usablePrefixes_eq_nil config.planner fun component _ c hc =>
      isEqualityOn_of_mem_rowKeyIn hproper hc component
  have hranges : planKeyRanges (info.rowKeyIn type ranges).conditions info config.planner =
      .ok [.unbounded] := by
    rw [planKeyRanges, outerRanges, hsalt, KeyBounds.ofConditions, if_neg htype, htexts]
    rfl
  have hshuffled : shuffle (splitsOf config info
      [(.keyRange .unbounded, (info.rowKeyIn type ranges).conditions)]) =
        [splitOf config info (.keyRange .unbounded, (info.rowKeyIn type ranges).conditions) 0] :=
    List.perm_singleton.mp (hshuffle _)
  have hunits : planUnits config source (info.rowKeyIn type ranges).conditions info state =
      (.ok [(.keyRange .unbounded, (info.rowKeyIn type ranges).conditions)], state) := by
    simp only [planUnits, hstrategy, rangeUnits, hranges]
    rfl
  exact planWith_eq_ok_iff.mpr ⟨hinfo, _, hunits, hshuffled.symm⟩

theorem readAll_unbounded (hcolumns : info.Projects projection columns)
    (hstored : store.tables.find? info.qualified = some stored)
    (htype : info.rowKeyType ≠ .varchar) (conditions : List Condition) :
    store.readAll info projection config.scan
        [splitOf config info (.keyRange .unbounded, conditions) 0] =
      .ok (stored.rows.values.filterMap
        (ScanRequest.under info conditions projection columns false).read) := by
  have hhull : ∀ key ∈ KeyRange.unbounded,
      key ∈ (KeyBounds.ofConditions conditions info).keyRange := by
    intro key _
    rw [KeyBounds.ofConditions, if_neg htype]
    exact KeyRange.mem_unbounded key
  have hall : ∀ key, (splitOf config info (.keyRange .unbounded, conditions) 0).unit.holds key =
      true := fun key => decide_eq_true (KeyRange.mem_unbounded key)
  have hsplit : store.readPlanned info projection config.scan
      (splitOf config info (.keyRange .unbounded, conditions) 0) =
        .ok (stored.rows.values.filterMap
          (ScanRequest.under info conditions projection columns false).read) := by
    rw [readPlanned_keyRange hcolumns hstored hhull, Split.share]
    simp only [hall, List.filter_true]
  rw [Store.readAll, List.mapM_cons, hsplit, List.mapM_nil]
  change Except.ok ([_] : List (List Row)).flatten = _
  rw [List.flatten_singleton]

/-- The keys that a scan returns for ranges of row keys. -/
theorem map_key_scan_rowKeyIn (hascending : ValueRange.Ascending ranges) (hne : ranges ≠ [])
    (hproper : ∀ range ∈ ranges, range.singleValue? = none) (rows : List Row) :
    (rows.filterMap (ScanRequest.under info (info.rowKeyIn type ranges).conditions projection
        columns false).read).map Row.key =
      (rows.map Row.key).filter fun key => ∃ range ∈ ranges, range.AdmitsKey key := by
  have hread : ∀ row : Row, (ScanRequest.under info (info.rowKeyIn type ranges).conditions
      projection columns false).read row =
        if ∃ range ∈ ranges, range.AdmitsKey row.key then
          (ScanRequest.under info (info.rowKeyIn type ranges).conditions projection columns
            true).read row
        else none := by
    intro row
    have htext : (∃ range ∈ ranges, range.AdmitsText .varchar row.key) ↔
        ∃ range ∈ ranges, range.AdmitsKey row.key :=
      exists_congr fun range => and_congr_right fun hrange =>
        ValueRange.admitsText_of_proper (hproper range hrange)
    rw [ScanRequest.read_under_false]
    simp only [admitsRowKey_rowKeyIn_iff hascending hne, htext]
  have hfilter : (rows.filter fun row => ∃ range ∈ ranges, range.AdmitsKey row.key).filterMap
      (ScanRequest.under info (info.rowKeyIn type ranges).conditions projection columns
        false).read =
      rows.filterMap (ScanRequest.under info (info.rowKeyIn type ranges).conditions projection
        columns false).read := by
    apply filterMap_filter_read (p := fun key => ∃ range ∈ ranges, range.AdmitsKey key)
    intro row hrow
    rw [hread, if_neg (of_decide_eq_false hrow)]
  rw [← hfilter, map_key_filterMap_read, List.filter_map]
  · rfl
  · intro row hrow
    rw [hread, if_pos (of_decide_eq_true (List.mem_filter.mp hrow).2)]
    exact ScanRequest.isSome_read_under_true (fun _ => TableMeta.column_of_mem_rowKeyIn) row

/-- Ranges of numbers come down to the texts of their ends: the rows returned are those whose keys
lie between them, byte by byte. So no row with a number in the ranges is lost exactly if the text of
the number lies between the texts of the ends as well. This is so for natural numbers that have as
many digits as the ends. -/
theorem numericKey_reads_all_iff (hinfo : info.validate = .ok ()) (hsalt : info.salt = none)
    (htype : info.rowKeyType ≠ .varchar)
    (hregion : config.regionLocal.allows info.qualified = false)
    (hascending : ValueRange.Ascending ranges) (hne : ranges ≠ [])
    (hproper : ∀ range ∈ ranges, range.singleValue? = none)
    (hprojection : info.Knows projection)
    (hstored : store.tables.find? info.qualified = some stored)
    {shuffle : List Split → List Split} (hshuffle : ∀ splits, (shuffle splits).Perm splits)
    {σ : Type} (source : RegionSource σ) (state : σ) :
    ∃ splits rows,
      planWith config source shuffle (info.rowKeyIn type ranges).conditions info state =
        (.ok splits, state) ∧
      store.readAll info projection config.scan splits = .ok rows ∧
      rows.map Row.key =
        ((stored.rows.values.map Row.key).filter fun key =>
          ∃ range ∈ ranges, range.AdmitsKey key) ∧
      ((∀ row ∈ stored.rows.values, ∀ n, row.key = Key.ofInteger n →
          (∃ range ∈ ranges, range.AdmitsNumber n) → row.key ∈ rows.map Row.key) ↔
        ∀ row ∈ stored.rows.values, ∀ n, row.key = Key.ofInteger n →
          (∃ range ∈ ranges, range.AdmitsNumber n) →
            ∃ range ∈ ranges, range.AdmitsKey row.key) ∧
      (∀ row ∈ stored.rows.values, ∀ n : Nat, row.key = Key.ofInteger n →
        (∀ range ∈ ranges, range.HasWidth row.key.length) →
          (row.key ∈ rows.map Row.key ↔ ∃ range ∈ ranges, range.AdmitsNumber n)) := by
  obtain ⟨columns, hcolumns⟩ := exists_columns hprojection
  have hkeys := @map_key_scan_rowKeyIn info projection columns type ranges hascending hne hproper
    stored.rows.values
  have hmem : ∀ row ∈ stored.rows.values, row.key ∈ (stored.rows.values.filterMap
      (ScanRequest.under info (info.rowKeyIn type ranges).conditions projection columns
        false).read).map Row.key ↔ ∃ range ∈ ranges, range.AdmitsKey row.key := by
    intro row hrow
    rw [hkeys, List.mem_filter, decide_eq_true_eq]
    exact and_iff_right (List.mem_map_of_mem hrow)
  refine ⟨_, _, planWith_unbounded hinfo hsalt htype hregion hproper hshuffle source state,
    readAll_unbounded hcolumns hstored htype _, hkeys, ?_, ?_⟩
  · constructor
    · intro hall row hrow n hkey hrange
      exact (hmem row hrow).mp (hall row hrow n hkey hrange)
    · intro hall row hrow n hkey hrange
      exact (hmem row hrow).mpr (hall row hrow n hkey hrange)
  · intro row hrow n hkey hwidth
    rw [hmem row hrow]
    rw [hkey] at hwidth ⊢
    apply exists_congr
    intro range
    apply and_congr_right
    intro hrange
    exact ValueRange.admitsKey_iff_admitsNumber (hwidth range hrange)

/-- Counters by number. -/
def counters : TableMeta where
  schema := "web"
  table := "counters"
  rowKeyColumn := "number"
  columns := [⟨"", "number", .integer, true⟩, .ofFamily "d" "count" .integer]

def counter (number : Int) : Row :=
  ⟨Key.ofInteger number, ⟨[(⟨"d", "count"⟩, [0, 0, 0, 1])]⟩⟩

def counterStore : Store :=
  ({} : Store).putRows "web:counters" [counter 5, counter 9, counter 10, counter 100]

theorem counters_knows : counters.Knows ["number", "count"] := by
  simp [TableMeta.Knows, counters, TableMeta.column?, Column.ofFamily]

theorem numericKey_reads_all_counters :
    ∃ stored splits rows,
      counterStore.tables.find? "web:counters" = some stored ∧
      planWith {} noSnapshots List.reverse
        (counters.rowKeyIn .integer [.atLeast (.integer 10)]).conditions counters () =
          (.ok splits, ()) ∧
      counterStore.readAll counters ["number", "count"] {} splits = .ok rows ∧
      ∀ row ∈ stored.rows.values, ∀ n, row.key = Key.ofInteger n →
        (∃ range ∈ [ValueRange.atLeast (.integer 10)], range.AdmitsNumber n) →
          row.key ∈ rows.map Row.key := by
  obtain ⟨stored, hstored⟩ : ∃ stored, counterStore.tables.find? "web:counters" = some stored :=
    ⟨_, rfl⟩
  obtain ⟨splits, rows, hplan, hrows, _, hall, _⟩ :=
    @numericKey_reads_all_iff counters ["number", "count"] {} counterStore stored .integer
      [.atLeast (.integer 10)] (by decide) rfl (by decide) (by decide)
      (List.pairwise_singleton _ _) (by decide) (by decide) counters_knows hstored _
      (fun _ => List.reverse_perm _) _ noSnapshots ()
  refine ⟨stored, splits, rows, hstored, hplan, hrows, hall.mpr fun row hrow _ _ _ => ?_⟩
  have hadmits : ∀ row ∈ stored.rows.values,
      ∃ range ∈ [ValueRange.atLeast (.integer 10)], range.AdmitsKey row.key := by
    obtain rfl := Option.some.inj hstored
    decide
  exact hadmits row hrow

/-- From 9 on, the counter 10 is lost. -/
theorem numericKey_not_reads_all :
    counters.validate = .ok () ∧ ∃ stored splits rows,
      counterStore.tables.find? "web:counters" = some stored ∧
      planWith {} noSnapshots List.reverse
        (counters.rowKeyIn .integer [.atLeast (.integer 9)]).conditions counters () =
          (.ok splits, ()) ∧
      counterStore.readAll counters ["number", "count"] {} splits = .ok rows ∧
      counter 10 ∈ stored.rows.values ∧ (counter 10).key = Key.ofInteger 10 ∧
      (ValueRange.atLeast (.integer 9)).AdmitsNumber 10 ∧
      (counter 10).key ∉ rows.map Row.key := by
  have hnumber : (ValueRange.atLeast (.integer 9)).AdmitsNumber 10 :=
    ⟨⟨9, rfl, by decide⟩, trivial⟩
  exact ⟨by decide, _, _, _, rfl, rfl, rfl, by decide, rfl, hnumber, by decide⟩

end KeyScan
