import KeyScan.Proofs.Lists
import KeyScan.Proofs.OrderedMap
import KeyScan.Store.Basic

/-! # Stores under writes

Every write keeps tables in order and leaves the snapshots as they are, and so does every run of
writes. -/

namespace KeyScan

/-! ### Tables in order -/

/-- The rows of a table stand under their keys, each key once, and its split points ascend. -/
structure StoredTable.WellFormed (stored : StoredTable) : Prop where
  sorted : stored.rows.Sorted
  keyed : ∀ entry ∈ stored.rows.entries, entry.2.key = entry.1
  ascending : stored.splitPoints.Pairwise fun a b => a < b
  bounding : ∀ point ∈ stored.splitPoints, point ≠ []

namespace StoredTable

variable {stored : StoredTable}

theorem wellFormed_empty : ({} : StoredTable).WellFormed where
  sorted := List.Pairwise.nil
  keyed := by simp [OrderedMap.empty]
  ascending := List.Pairwise.nil
  bounding := by simp

theorem WellFormed.nodup_keys (h : stored.WellFormed) :
    (stored.rows.values.map Row.key).Nodup := by
  have hkeys : stored.rows.values.map Row.key = stored.rows.entries.map Prod.fst := by
    rw [OrderedMap.values, List.map_map]
    exact List.map_congr_left h.keyed
  rw [hkeys]
  exact OrderedMap.nodup_keys h.sorted

theorem WellFormed.putRows (h : stored.WellFormed) (rows : List Row) :
    ({ stored with
        rows := rows.foldl (fun held row => held.insert row.key row) stored.rows } :
      StoredTable).WellFormed := by
  induction rows generalizing stored with
  | nil => exact h
  | cons row rest ih =>
      have hkeyed : ∀ entry ∈ (stored.rows.insert row.key row).entries,
          entry.2.key = entry.1 := by
        intro entry hentry
        rcases OrderedMap.mem_insertEntry hentry with rfl | hold
        · rfl
        · exact h.keyed entry hold
      have hinserted : ({ stored with rows := stored.rows.insert row.key row } :
          StoredTable).WellFormed :=
        { h with sorted := OrderedMap.sorted_insert h.sorted row.key row, keyed := hkeyed }
      exact ih hinserted

theorem WellFormed.removeRows (h : stored.WellFormed) (keys : List Key) :
    ({ stored with rows := (Store.removeRows stored.rows keys).2 } :
      StoredTable).WellFormed := by
  induction keys generalizing stored with
  | nil => exact h
  | cons key rest ih =>
      have herased : ({ stored with rows := stored.rows.erase key } :
          StoredTable).WellFormed :=
        { h with
          sorted := OrderedMap.sorted_erase h.sorted key
          keyed := fun entry hentry => h.keyed entry (List.mem_filter.mp hentry).1 }
      exact ih herased

end StoredTable

namespace Store

theorem pairwise_normalSplitPoints (points : List Key) :
    (normalSplitPoints points).Pairwise fun a b => a < b := by
  have hsorted : ((points.filter fun point => point ≠ []).mergeSort
      fun a b => decide (a ≤ b)).Pairwise fun a b => decide (a ≤ b) = true :=
    List.pairwise_mergeSort (by grind) (by grind) _
  have hle := hsorted.sublist (eraseDupsBy_sublist (· == ·) _)
  refine (hle.and (nodup_eraseDups _)).imp ?_
  intro a b hab
  grind

theorem ne_nil_of_mem_normalSplitPoints {points : List Key} {point : Key}
    (h : point ∈ normalSplitPoints points) : point ≠ [] := by
  rw [normalSplitPoints, List.mem_eraseDups, List.mem_mergeSort, List.mem_filter] at h
  simpa using h.2

/-- Every table is in order. -/
def WellFormed (store : Store) : Prop :=
  ∀ entry ∈ store.tables.entries, entry.2.WellFormed

variable {store : Store}

theorem WellFormed.find? (h : store.WellFormed) {table : String} {stored : StoredTable}
    (hstored : store.tables.find? table = some stored) : stored.WellFormed :=
  h _ (OrderedMap.mem_of_find?_eq_some hstored)

theorem WellFormed.changeTable (h : store.WellFormed) (table : String)
    {change : StoredTable → StoredTable}
    (hchange : ∀ stored, stored.WellFormed → (change stored).WellFormed) :
    (store.changeTable table change).WellFormed := by
  intro entry hentry
  rcases OrderedMap.mem_insertEntry hentry with rfl | hold
  · apply hchange
    cases hstored : store.tables.find? table with
    | none => exact StoredTable.wellFormed_empty
    | some stored => exact h.find? hstored
  · exact h entry hold

/-! ### Writes -/

/-- A change of a store from outside. What the store answers to it is left out. -/
inductive Write where
  | createTable (table : String)
  | putRows (table : String) (rows : List Row)
  | setSplitPoints (table : String) (points : List Key)
  | addRegion (table : String) (region : Region)
  | delete (table : String) (keys : List Key)
  | failNextSnapshots (count : Nat)
  | createSnapshot (name schema table : String)
  deriving DecidableEq, Repr

def Write.apply (store : Store) : Write → Store
  | createTable table => store.createTable table
  | putRows table rows => store.putRows table rows
  | setSplitPoints table points => store.setSplitPoints table points
  | addRegion table region => store.addRegion table region
  | delete table keys => (store.delete table keys).2
  | failNextSnapshots count => store.failNextSnapshots count
  | createSnapshot name schema table => (store.createSnapshot name schema table).2

/-- The stores that writes make of the empty one. -/
inductive Reachable : Store → Prop
  | empty : Reachable {}
  | write {store : Store} (h : Reachable store) (write : Write) : Reachable (write.apply store)

/-- Taking a snapshot fails and at most uses up a pending failure, or it lists a table as it is under a
new name. -/
theorem createSnapshot_cases (store : Store) (name schema table : String) :
    (∃ failure, store.createSnapshot name schema table =
        (.error failure, { store with pendingFailures := store.pendingFailures - 1 })) ∨
      ∃ stored, store.snapshots.find? name = none ∧
        store.tables.find? (qualifiedName schema table) = some stored ∧
        store.createSnapshot name schema table =
          (.ok (), { store with
            snapshots := store.snapshots.insert name
              ⟨qualifiedName schema table, stored.rows,
                regionsOf (qualifiedName schema table) stored⟩ }) := by
  rw [createSnapshot]
  simp only
  split
  · exact Or.inl ⟨_, rfl⟩
  · rename_i hpending
    have hspent : { store with pendingFailures := store.pendingFailures - 1 } = store := by
      rw [Nat.sub_eq_zero_of_le (Nat.le_succ_of_le (Nat.le_of_not_lt hpending)),
        ← Nat.eq_zero_of_not_pos hpending]
    rw [hspent]
    split
    · exact Or.inl ⟨_, rfl⟩
    · rename_i hname
      rw [Bool.not_eq_true, OrderedMap.contains_eq_isSome_find?, Option.isSome_eq_false_iff,
        Option.isNone_iff_eq_none] at hname
      split
      · exact Or.inl ⟨_, rfl⟩
      · rename_i stored hstored
        exact Or.inr ⟨stored, hname, hstored, rfl⟩

theorem tables_createSnapshot (store : Store) (name schema table : String) :
    (store.createSnapshot name schema table).2.tables = store.tables := by
  rcases store.createSnapshot_cases name schema table with ⟨_, h⟩ | ⟨_, _, _, h⟩ <;> rw [h]

theorem WellFormed.delete (h : store.WellFormed) (table : String) (keys : List Key) :
    (store.delete table keys).2.WellFormed := by
  rw [Store.delete]
  split
  · exact h
  · rename_i held hheld
    apply h.changeTable
    intro stored hstored
    have hremoved := (h.find? hheld).removeRows keys
    exact { hstored with sorted := hremoved.sorted, keyed := hremoved.keyed }

theorem WellFormed.apply (h : store.WellFormed) (write : Write) :
    (write.apply store).WellFormed := by
  cases write with
  | createTable table => exact h.changeTable table fun _ hstored => hstored
  | putRows table rows => exact h.changeTable table fun _ hstored => hstored.putRows rows
  | setSplitPoints table points =>
      apply h.changeTable
      intro stored hstored
      exact { hstored with
        ascending := pairwise_normalSplitPoints points
        bounding := fun _ => ne_nil_of_mem_normalSplitPoints }
  | addRegion table region => exact h.changeTable table fun _ hstored => { hstored with }
  | delete table keys => exact h.delete table keys
  | failNextSnapshots count => exact h
  | createSnapshot name schema table =>
      rw [WellFormed, Write.apply]
      rw [tables_createSnapshot]
      exact h

/-- Every table of a reachable store is in order. -/
theorem Reachable.wellFormed (h : Reachable store) : store.WellFormed := by
  induction h with
  | empty => simp [WellFormed, OrderedMap.empty]
  | write _ write ih => exact ih.apply write

/-! ### Snapshots -/

/-- A write leaves the snapshots as they are, or adds one of a table under a new name. -/
theorem snapshots_apply (store : Store) (write : Write) :
    (write.apply store).snapshots = store.snapshots ∨
      ∃ name table stored, store.snapshots.find? name = none ∧
        store.tables.find? table = some stored ∧
        (write.apply store).snapshots =
          store.snapshots.insert name ⟨table, stored.rows, regionsOf table stored⟩ := by
  cases write with
  | delete table keys =>
      rw [Write.apply, Store.delete]
      split <;> exact Or.inl rfl
  | createSnapshot name schema table =>
      rw [Write.apply]
      rcases store.createSnapshot_cases name schema table with ⟨_, h⟩ | ⟨stored, hname, hstored, h⟩
      · exact Or.inl (by rw [h])
      · exact Or.inr ⟨name, qualifiedName schema table, stored, hname, hstored, by rw [h]⟩
  | _ => exact Or.inl rfl

/-- No write changes a snapshot that has been taken. -/
theorem find?_snapshots_apply {name : String} {snapshot : Snapshot}
    (h : store.snapshots.find? name = some snapshot) (write : Write) :
    (write.apply store).snapshots.find? name = some snapshot := by
  rcases store.snapshots_apply write with hsame | ⟨other, table, stored, hnew, _, hadded⟩
  · rw [hsame, h]
  · have hother : other ≠ name := by
      rintro rfl
      simp [h] at hnew
    rw [hadded, OrderedMap.find?_insert, if_neg hother, h]

end Store

end KeyScan
