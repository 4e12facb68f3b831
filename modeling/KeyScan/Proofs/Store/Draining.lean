import KeyScan.Proofs.Store.Execution
import KeyScan.Proofs.Store.Invariants
import Mathlib.Algebra.GroupWithZero.Nat
import Mathlib.Data.Finset.Card

/-! # Draining and deleting

A reader that takes page after page of a cursor and deletes the rows of each deletes from the live table
exactly the rows that it was given and that are there, each once: page by page comes to deleting all of them
at once. Nothing else in the store changes. -/

namespace KeyScan

/-- The entries under all other keys. -/
def OrderedMap.without {κ ν : Type} [DecidableEq κ] (m : OrderedMap κ ν) (keys : List κ) :
    OrderedMap κ ν :=
  ⟨m.entries.filter fun entry => entry.1 ∉ keys⟩

namespace Store

/-! ### Removing rows -/

theorem removeRows_append (rows : OrderedMap Key Row) (keys later : List Key) :
    removeRows rows (keys ++ later) =
      ((removeRows rows keys).1 + (removeRows (removeRows rows keys).2 later).1,
        (removeRows (removeRows rows keys).2 later).2) := by
  induction keys generalizing rows with
  | nil => simp [removeRows]
  | cons key rest ih =>
      simp only [List.cons_append, removeRows, ih]
      split <;> simp [Nat.add_right_comm]

theorem removeRows_snd (rows : OrderedMap Key Row) (keys : List Key) :
    (removeRows rows keys).2 = rows.without keys := by
  induction keys generalizing rows with
  | nil => simp [removeRows, OrderedMap.without]
  | cons key rest ih =>
      simp only [removeRows, ih, OrderedMap.without, OrderedMap.erase, List.filter_filter,
        List.mem_cons, not_or]
      congr 1
      apply List.filter_congr
      intro entry _
      simp [Bool.and_comm]

/-- A key that is listed again is no longer there, so every key counts once. -/
theorem removeRows_fst (rows : OrderedMap Key Row) (keys : List Key) :
    (removeRows rows keys).1 = (keys.toFinset.filter fun key => rows.contains key).card := by
  induction keys generalizing rows with
  | nil => rfl
  | cons key rest ih =>
      have hleft : (rest.toFinset.filter fun other => (rows.erase key).contains other) =
          (rest.toFinset.filter fun other => rows.contains other).erase key := by
        ext other
        simp [OrderedMap.contains_erase, and_left_comm]
      simp only [removeRows, ih, hleft, List.toFinset_cons, Finset.filter_insert]
      by_cases hkey : rows.contains key = true
      · rw [if_pos hkey, if_pos hkey, ← Finset.erase_insert_eq_erase,
          Finset.card_erase_add_one (Finset.mem_insert_self _ _)]
      · rw [if_neg hkey, if_neg hkey, Finset.erase_eq_of_notMem (by simp [hkey])]

/-! ### Deleting -/

/-- The store with a table in the place of the one of that name. -/
def putTable (store : Store) (table : String) (stored : StoredTable) : Store :=
  { store with tables := store.tables.insert table stored }

variable {store : Store} {table : String} {stored : StoredTable}

theorem find?_putTable (store : Store) (table other : String) (stored : StoredTable) :
    (store.putTable table stored).tables.find? other =
      if table = other then some stored else store.tables.find? other :=
  OrderedMap.find?_insert store.tables table other stored

theorem putTable_putTable (store : Store) (table : String) (stored later : StoredTable) :
    (store.putTable table stored).putTable table later = store.putTable table later := by
  simp only [putTable, OrderedMap.insert_insert]

theorem putTable_of_find? (h : store.Named) (hstored : store.tables.find? table = some stored) :
    store.putTable table stored = store := by
  rw [putTable, OrderedMap.insert_of_find?_eq_some h.tables hstored]

theorem delete_eq (hstored : store.tables.find? table = some stored) (keys : List Key) :
    store.delete table keys = (.ok (removeRows stored.rows keys).1,
      store.putTable table { stored with rows := (removeRows stored.rows keys).2 }) := by
  rw [delete, hstored]
  simp only [changeTable, hstored, Option.getD_some, putTable]

/-- A table stays when rows of it are deleted. -/
theorem exists_find?_of_delete (hstored : store.tables.find? table = some stored) {keys : List Key}
    {count : Nat} {next : Store} (h : store.delete table keys = (.ok count, next)) :
    ∃ left, next.tables.find? table = some left := by
  rw [delete_eq hstored, Prod.mk.injEq] at h
  exact ⟨_, by rw [← h.2, find?_putTable, if_pos rfl]⟩

theorem delete_nil (h : store.Named) (hstored : store.tables.find? table = some stored) :
    store.delete table [] = (.ok 0, store) := by
  rw [delete_eq hstored, removeRows]
  exact congrArg (Prod.mk _) (putTable_of_find? h hstored)

/-- Keys that are deleted one list after another may be deleted all at once. -/
theorem delete_append (hstored : store.tables.find? table = some stored) {keys later : List Key}
    {next after : Store} {count more : Nat} (hkeys : store.delete table keys = (.ok count, next))
    (hlater : next.delete table later = (.ok more, after)) :
    store.delete table (keys ++ later) = (.ok (count + more), after) := by
  rw [delete_eq hstored, Prod.mk.injEq, Except.ok.injEq] at hkeys
  obtain ⟨rfl, rfl⟩ := hkeys
  rw [delete_eq (by rw [find?_putTable, if_pos rfl]), putTable_putTable, Prod.mk.injEq,
    Except.ok.injEq] at hlater
  obtain ⟨rfl, rfl⟩ := hlater
  rw [delete_eq hstored, removeRows_append]

end Store

namespace Cursor

/-! ### Page after page -/

/-- Taking pages until there are none and deleting the rows of each: the pages with the answers to
their deletions, and the store that is left. -/
inductive DeletesPages : Cursor → Store → List (List Row × Nat) → Store → Prop
  | done {cursor rest : Cursor} {store : Store} (hnone : cursor.nextPage = (none, rest)) :
      DeletesPages cursor store [] store
  | page {cursor rest : Cursor} {store next after : Store} {page : List Row} {count : Nat}
      {answered : List (List Row × Nat)} (hpage : cursor.nextPage = (some page, rest))
      (hdelete : rest.deleteRows page store = (.ok count, next))
      (hrest : DeletesPages rest next answered after) :
      DeletesPages cursor store ((page, count) :: answered) after

variable {cursor : Cursor} {store after : Store} {stored : StoredTable}

theorem exists_deletesPages (hpage : 0 < cursor.pageSize)
    (hstored : store.tables.find? cursor.table = some stored) :
    ∃ answered after, cursor.DeletesPages store answered after := by
  induction hlength : cursor.rows.length using Nat.strongRecOn generalizing cursor store stored with
  | _ length ih =>
      rcases nextPage_cases hpage with ⟨_, hnone⟩ | ⟨page, rest, hnext, hrows, hfull, _⟩
      · exact ⟨[], store, .done hnone⟩
      · have hless : rest.length < length := by
          have hpos := List.length_pos_of_ne_nil hfull
          rw [← hlength, hrows, List.length_append]
          omega
        have hdelete := Store.delete_eq hstored (page.map Row.key)
        obtain ⟨_, hleft⟩ := Store.exists_find?_of_delete hstored hdelete
        obtain ⟨answered, after, hrest⟩ :=
          @ih rest.length hless { cursor with rows := rest } _ _ hpage hleft rfl
        exact ⟨_, after, .page hnext hdelete hrest⟩

/-- Deleting page after page is deleting the rows of all pages at once. -/
theorem DeletesPages.delete_eq {answered : List (List Row × Nat)}
    (h : cursor.DeletesPages store answered after) (hpage : 0 < cursor.pageSize)
    (hreachable : Store.Reachable store)
    (hstored : store.tables.find? cursor.table = some stored) :
    (answered.map Prod.fst).flatten = cursor.rows ∧
      store.delete cursor.table (cursor.rows.map Row.key) =
        (.ok (answered.map Prod.snd).sum, after) := by
  induction h generalizing stored with
  | @done cursor rest store hnone =>
      rcases nextPage_cases hpage with ⟨hrows, _⟩ | ⟨page, left, hnext, _⟩
      · rw [hrows]
        exact ⟨rfl, Store.delete_nil hreachable.named hstored⟩
      · simp [hnone] at hnext
  | @page cursor rest store next after page count answered hnext hdelete hrest ih =>
      rcases nextPage_cases hpage with ⟨_, hnone⟩ | ⟨first, left, hfirst, hrows, _⟩
      · simp [hnone] at hnext
      · rw [hfirst, Prod.mk.injEq, Option.some.injEq] at hnext
        obtain ⟨rfl, rfl⟩ := hnext
        have hnext : Store.Reachable next := by
          have hwrite := hreachable.write (.delete cursor.table (first.map Row.key))
          rwa [Store.Write.apply, show store.delete cursor.table (first.map Row.key) = _ from hdelete]
            at hwrite
        obtain ⟨_, hleft⟩ := Store.exists_find?_of_delete hstored hdelete
        obtain ⟨hpages, hlater⟩ := ih hpage hnext hleft
        rw [List.map_cons, List.flatten_cons, hpages, List.map_cons, List.sum_cons, hrows,
          List.map_append]
        exact ⟨rfl, Store.delete_append hstored hdelete hlater⟩

theorem openOn_eq_ok_iff {split : Split} {request : ScanRequest} {pageSize : Nat} :
    openOn store split request pageSize = .ok cursor ↔
      0 < pageSize ∧
        ∃ rows, store.readSplit split request = .ok rows ∧
          cursor = ⟨split.qualified, rows, pageSize⟩ := by
  rw [openOn]
  split
  · rename_i hzero
    simp [hzero]
  · rename_i hpage
    cases store.readSplit split request with
    | error failure => simp [Except.map]
    | ok rows => simp [Except.map, Nat.pos_of_ne_zero hpage, eq_comm]

/-- A reader that opens a cursor on a split of a table, takes pages until there are none and deletes the
rows of each, gets to the end. The pages hold what one read of the split returns; the counts add up to the
number of different keys among them that the table had, however often a key is on the pages; and the
table has lost those keys. No other table is changed, nor any split point or snapshot. -/
theorem deletesPages_removes_what_was_read (hreachable : Store.Reachable store) {split : Split}
    {request : ScanRequest} {pageSize : Nat}
    (hopen : openOn store split request pageSize = .ok cursor)
    (hstored : store.tables.find? split.qualified = some stored) :
    (∃ answered after, cursor.DeletesPages store answered after) ∧
      ∀ answered after, cursor.DeletesPages store answered after →
        store.readSplit split request = .ok (answered.map Prod.fst).flatten ∧
        (answered.map Prod.snd).sum =
          (((answered.map Prod.fst).flatten.map Row.key).toFinset.filter fun key =>
            stored.rows.contains key).card ∧
        after.tables.find? split.qualified =
          some { stored with
            rows := stored.rows.without ((answered.map Prod.fst).flatten.map Row.key) } ∧
        (∀ other, other ≠ split.qualified → after.tables.find? other = store.tables.find? other) ∧
        after.snapshots = store.snapshots ∧ after.pendingFailures = store.pendingFailures := by
  obtain ⟨hpage, rows, hread, rfl⟩ := openOn_eq_ok_iff.mp hopen
  refine ⟨exists_deletesPages hpage hstored, ?_⟩
  intro answered after hanswered
  obtain ⟨hpages, hdelete⟩ := hanswered.delete_eq hpage hreachable hstored
  rw [Store.delete_eq hstored, Prod.mk.injEq, Except.ok.injEq] at hdelete
  obtain ⟨hcount, rfl⟩ := hdelete
  rw [hpages, ← hcount, Store.removeRows_fst, Store.removeRows_snd]
  refine ⟨hread, rfl, ?_, ?_, rfl, rfl⟩
  · rw [Store.find?_putTable, if_pos rfl]
  · intro other hother
    rw [Store.find?_putTable, if_neg hother.symm]

/-- Writes that put three visits into a table. -/
def threeVisits : List Store.Write :=
  [.putRows "default:visits" [⟨[97], .empty⟩, ⟨[98], .empty⟩, ⟨[99], .empty⟩]]

/-- A batch that looks up `b` twice, and a key that is not there. -/
def repeatedLookups : Split :=
  ⟨"default", "visits", "visit", [], [], .batchGet [[98], [122], [98], [97]]⟩

/-- In pages of one row `b` is given twice and counted once. -/
theorem deletesPages_removes_what_was_read_repeated :
    ∃ cursor, openOn (Store.run {} threeVisits) repeatedLookups {} 1 = .ok cursor ∧
      ∃ answered after, cursor.DeletesPages (Store.run {} threeVisits) answered after ∧
        (answered.map Prod.fst).flatten.map Row.key = [[98], [98], [97]] ∧
        (answered.map Prod.snd).sum = 2 ∧
        after.tables.find? "default:visits" = some { rows := ⟨[([99], ⟨[99], .empty⟩)]⟩ } := by
  have hopen : openOn (Store.run {} threeVisits) repeatedLookups {} 1 = .ok _ := rfl
  obtain ⟨⟨answered, after, hanswered⟩, hall⟩ :=
    deletesPages_removes_what_was_read (Store.Reachable.empty.run threeVisits) hopen rfl
  obtain ⟨hread, hcount, hleft, _⟩ := hall answered after hanswered
  have hrows : (answered.map Prod.fst).flatten =
      [⟨[98], .empty⟩, ⟨[98], .empty⟩, ⟨[97], .empty⟩] := (Except.ok.inj hread).symm
  rw [hrows] at hcount hleft
  exact ⟨_, rfl, answered, after, hanswered, by rw [hrows]; rfl, hcount.trans (by decide), hleft⟩

end Cursor

end KeyScan
