import KeyScan.Proofs.Constraint.Texts
import KeyScan.Proofs.Filter.Columns

/-! # One domain of the row key, read three times

A domain of the row key comes to the planner as a flat list of conditions. The filter takes the list
apart into intervals, the hull looks at its two ends, and whether the hull is exact is told from its
length. All three agree with the domain. -/

namespace KeyScan

variable {info : TableMeta} {type : ColumnType} {ranges : List ValueRange}
  {projection : List String} {row : Row}

/-- With conditions on the row key alone, a compiled filter admits the rows whose key lies in one of
the ranges. -/
theorem all_accepts_compile_rowKeyIn_iff (h : ValueRange.Ascending ranges) (hne : ranges ≠ []) :
    (ScanFilter.compile info (info.rowKeyIn type ranges).conditions projection false).all
        (ScanFilter.accepts row) = true ↔
      ∃ range ∈ ranges, range.AdmitsText .varchar row.key := by
  have hcolumns : ScanFilter.AdmitsColumns info (info.rowKeyIn type ranges).conditions row := by
    intro column hcolumn hconditions
    obtain ⟨c, hc⟩ := List.exists_mem_of_ne_nil _ hconditions
    rw [mem_conditionsOn_iff] at hc
    exact absurd (hc.2.symm.trans (TableMeta.column_of_mem_rowKeyIn hc.1)) hcolumn
  rw [ScanFilter.all_accepts_compile_iff, admitsRowKey_rowKeyIn_iff h hne]
  simp [hcolumns]

/-- The filter, the hull and the test for an exact hull agree with the domain: the filter admits the
rows whose key lies in a range, the hull leaves out no such key, and where it is said to be exact it
holds no other. -/
theorem rowKeyIn_filter_and_hull (h : ValueRange.Ascending ranges) (hne : ranges ≠ [])
    (projection : List String) (key : Key) :
    (∀ row : Row, row.key = key →
      ((ScanFilter.compile info (info.rowKeyIn type ranges).conditions projection false).all
          (ScanFilter.accepts row) = true ↔
        ∃ range ∈ ranges, range.AdmitsText .varchar key)) ∧
    ((∃ range ∈ ranges, range.AdmitsText .varchar key) →
      key ∈ (KeyBounds.ofConditions (info.rowKeyIn type ranges).conditions info).keyRange) ∧
    (KeyBounds.isExact (info.rowKeyIn type ranges).conditions info = true →
      key ∈ (KeyBounds.ofConditions (info.rowKeyIn type ranges).conditions info).keyRange →
        ∃ range ∈ ranges, range.AdmitsText .varchar key) := by
  -- The hull is about keys; any row with the key stands for it.
  have hrow := @admitsRowKey_rowKeyIn_iff type info ranges h hne ⟨key, .empty⟩
  refine ⟨?_, ?_, ?_⟩
  · rintro row rfl
    exact all_accepts_compile_rowKeyIn_iff h hne
  · intro hkey
    exact KeyBounds.mem_keyRange_of_admitsRowKey (TableMeta.ordered_rowKeyIn h) (hrow.mpr hkey)
  · intro hexact hkey
    exact hrow.mp ((KeyBounds.mem_keyRange_iff_admitsRowKey hexact ⟨key, .empty⟩).mp hkey)

/-- Articles by title. -/
def articles : TableMeta where
  schema := "press"
  table := "articles"
  rowKeyColumn := "title"
  columns := [.rowKey "title", .ofFamily "a" "words" .integer]

/-- Titles after one and up to another. -/
def titlesBetween : ValueRange :=
  ⟨.excluded (.varchar "d"), .included (.varchar "f")⟩

/-- Titles before one, a title by itself, and titles between two and past one. -/
def titles : List ValueRange :=
  [.lessThan (.varchar "b"), .single (.varchar "c"), titlesBetween, .greaterThan (.varchar "x")]

/-- The first title after an excluded end, in several ranges, and the last one of a range by itself,
whose hull is exact. -/
theorem rowKeyIn_filter_and_hull_titles :
    (ValueRange.Ascending titles ∧
      (ScanFilter.compile articles (articles.rowKeyIn .varchar titles).conditions
        ["title", "words"] false).all
          (ScanFilter.accepts ⟨(Key.ofText "d").successor, .empty⟩) = true ∧
      (Key.ofText "d").successor ∈ (KeyBounds.ofConditions
        (articles.rowKeyIn .varchar titles).conditions articles).keyRange) ∧
    KeyBounds.isExact (articles.rowKeyIn .varchar [titlesBetween]).conditions articles = true ∧
      Key.ofText "f" ∈ (KeyBounds.ofConditions
        (articles.rowKeyIn .varchar [titlesBetween]).conditions articles).keyRange ∧
      ∃ range ∈ [titlesBetween], range.AdmitsText .varchar (Key.ofText "f") := by
  have hascending : ValueRange.Ascending titles := by
    simp [ValueRange.Ascending, titles, titlesBetween, ValueRange.lessThan, ValueRange.single,
      ValueRange.greaterThan]
  have hbetween : titlesBetween.AdmitsText .varchar (Key.ofText "d").successor :=
    ⟨by decide, by decide⟩
  have hkey : ∃ range ∈ titles, range.AdmitsText .varchar (Key.ofText "d").successor :=
    ⟨titlesBetween, by simp [titles], hbetween⟩
  obtain ⟨hfilter, hhull, _⟩ := @rowKeyIn_filter_and_hull articles .varchar titles hascending
    (by decide) ["title", "words"] (Key.ofText "d").successor
  obtain ⟨_, _, hexact⟩ := @rowKeyIn_filter_and_hull articles .varchar [titlesBetween]
    (List.pairwise_singleton _ _) (by decide) ["title", "words"] (Key.ofText "f")
  have hlast : Key.ofText "f" ∈ (KeyBounds.ofConditions
      (articles.rowKeyIn .varchar [titlesBetween]).conditions articles).keyRange := by decide
  exact ⟨⟨hascending, (hfilter _ rfl).mpr hkey, hhull hkey⟩, by decide, hlast,
    hexact (by decide) hlast⟩

end KeyScan
