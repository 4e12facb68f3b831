import KeyScan.Proofs.Store.Runs

/-! # What writes keep

Whatever is written, the tables and the snapshots of a store are in order, and a snapshot that has been
taken stays as it is. -/

namespace KeyScan

/-- The rows of a snapshot stand under their keys, each key once, and its regions are those between
ascending split points, with others after them. -/
structure Snapshot.WellFormed (snapshot : Snapshot) : Prop where
  sorted : snapshot.rows.Sorted
  keyed : ∀ entry ∈ snapshot.rows.entries, entry.2.key = entry.1
  cut : ∃ (points : List Key) (others : List Region),
    points.Pairwise (fun a b => a < b) ∧ (∀ point ∈ points, point ≠ []) ∧
      snapshot.regions = Store.regionsFrom snapshot.table 0 [] points ++ others

theorem StoredTable.WellFormed.snapshot {stored : StoredTable} (h : stored.WellFormed)
    (table : String) :
    (Snapshot.mk table stored.rows (Store.regionsOf table stored)).WellFormed where
  sorted := h.sorted
  keyed := h.keyed
  cut := ⟨stored.splitPoints, stored.extraRegions, h.ascending, h.bounding, rfl⟩

namespace Store

/-! ### Names -/

/-- Every table and every snapshot has a name of its own. -/
structure Named (store : Store) : Prop where
  tables : store.tables.Sorted
  snapshots : store.snapshots.Sorted

/-- A write leaves the tables as they are or puts one of them in its place. -/
theorem tables_apply (store : Store) (write : Write) :
    (write.apply store).tables = store.tables ∨
      ∃ table stored, (write.apply store).tables = store.tables.insert table stored := by
  cases write with
  | delete table keys =>
      rw [Write.apply, Store.delete]
      split
      · exact Or.inl rfl
      · exact Or.inr ⟨table, _, rfl⟩
  | failNextSnapshots count => exact Or.inl rfl
  | createSnapshot name schema table => exact Or.inl (tables_createSnapshot store name schema table)
  | _ => exact Or.inr ⟨_, _, rfl⟩

variable {store : Store}

theorem Named.apply (h : store.Named) (write : Write) : (write.apply store).Named where
  tables := by
    rcases store.tables_apply write with hsame | ⟨table, stored, hput⟩
    · rw [hsame]
      exact h.tables
    · rw [hput]
      exact OrderedMap.sorted_insert h.tables table stored
  snapshots := by
    rcases store.snapshots_apply write with hsame | ⟨name, _, _, _, _, hadded⟩
    · rw [hsame]
      exact h.snapshots
    · rw [hadded]
      exact OrderedMap.sorted_insert h.snapshots name _

/-! ### Snapshots -/

/-- Every snapshot is in order. -/
def SnapshotsWellFormed (store : Store) : Prop :=
  ∀ entry ∈ store.snapshots.entries, entry.2.WellFormed

/-- A snapshot that a write adds is of a table, so what has to be in order before is the tables too. -/
theorem SnapshotsWellFormed.apply (h : store.SnapshotsWellFormed) (htables : store.WellFormed)
    (write : Write) : (write.apply store).SnapshotsWellFormed := by
  rw [SnapshotsWellFormed]
  rcases store.snapshots_apply write with hsame | ⟨name, table, stored, _, hstored, hadded⟩
  · rw [hsame]
    exact h
  · rw [hadded]
    intro entry hentry
    rcases OrderedMap.mem_insertEntry hentry with rfl | hold
    · exact (htables.find? hstored).snapshot table
    · exact h entry hold

/-! ### Runs -/

/-- All writes, one after another. -/
def run (store : Store) (writes : List Write) : Store :=
  writes.foldl Write.apply store

theorem run_append (store : Store) (writes later : List Write) :
    store.run (writes ++ later) = (store.run writes).run later :=
  List.foldl_append

theorem Reachable.run (h : Reachable store) (writes : List Write) : Reachable (store.run writes) := by
  induction writes generalizing store with
  | nil => exact h
  | cons write rest ih => exact ih (h.write write)

theorem Reachable.named (h : Reachable store) : store.Named := by
  induction h with
  | empty => exact ⟨List.Pairwise.nil, List.Pairwise.nil⟩
  | write _ write ih => exact ih.apply write

theorem Reachable.snapshotsWellFormed (h : Reachable store) : store.SnapshotsWellFormed := by
  induction h with
  | empty => simp [SnapshotsWellFormed, OrderedMap.empty]
  | write hreachable write ih => exact ih.apply hreachable.wellFormed write

theorem find?_snapshots_run {name : String} {snapshot : Snapshot}
    (h : store.snapshots.find? name = some snapshot) (writes : List Write) :
    (store.run writes).snapshots.find? name = some snapshot := by
  induction writes generalizing store with
  | nil => exact h
  | cons write rest ih => exact ih (find?_snapshots_apply h write)

/-- After any run the rows of every table and of every snapshot stand under their keys, the split points
of every table ascend and are not empty, and no name stands twice; whatever is written later, every
snapshot is then the same. -/
theorem run_wellFormed_and_snapshots_kept (writes later : List Write) :
    (Store.run {} writes).Named ∧
      (∀ table stored, (Store.run {} writes).tables.find? table = some stored →
        stored.WellFormed) ∧
      ∀ name snapshot, (Store.run {} writes).snapshots.find? name = some snapshot →
        snapshot.WellFormed ∧
          (Store.run {} (writes ++ later)).snapshots.find? name = some snapshot := by
  have hreachable : Reachable (Store.run {} writes) := Reachable.empty.run writes
  refine ⟨hreachable.named, ?_, ?_⟩
  · intro table stored hstored
    exact hreachable.wellFormed.find? hstored
  · intro name snapshot hsnapshot
    refine ⟨hreachable.snapshotsWellFormed _ (OrderedMap.mem_of_find?_eq_some hsnapshot), ?_⟩
    rw [run_append]
    exact find?_snapshots_run hsnapshot later

/-- Writes that cut a table at `c` and `m`, fill it, and take a snapshot of it at the second try. -/
def firstWrites : List Write :=
  [.setSplitPoints "default:visits" [[], [99], [109], [109]],
    .putRows "default:visits" [⟨[98], .empty⟩, ⟨[122], .empty⟩],
    .failNextSnapshots 1,
    .createSnapshot "first" "default" "visits",
    .createSnapshot "first" "default" "visits"]

/-- Writes that touch everything the snapshot was taken of, and ask for its name again. -/
def laterWrites : List Write :=
  [.putRows "default:visits" [⟨[98], ⟨[(⟨"f", "v"⟩, [1])]⟩⟩],
    .setSplitPoints "default:visits" [],
    .addRegion "default:visits" ⟨"gone", [97], [98], false, true, false⟩,
    .delete "default:visits" [[122], [121]],
    .delete "default:others" [[98]],
    .createSnapshot "first" "default" "visits",
    .createSnapshot "second" "default" "visits"]

theorem run_wellFormed_and_snapshots_kept_visits :
    ∃ snapshot, (Store.run {} firstWrites).snapshots.find? "first" = some snapshot ∧
      snapshot.rows.size = 2 ∧ snapshot.regions.length = 3 ∧
      (Store.run {} (firstWrites ++ laterWrites)).snapshots.find? "first" = some snapshot ∧
      (Store.run {} (firstWrites ++ laterWrites)).rowCount "default:visits" = 1 ∧
      (Store.run {} (firstWrites ++ laterWrites)).snapshotCount = 2 := by
  have hpoints : normalSplitPoints [[], [99], [109], [109]] = [[99], [109]] := by
    rw [normalSplitPoints, List.mergeSort_of_pairwise (by decide)]
    decide
  have hsnapshot : (Store.run {} firstWrites).snapshots.find? "first" =
      some ⟨"default:visits", ⟨[([98], ⟨[98], .empty⟩), ([122], ⟨[122], .empty⟩)]⟩,
        [⟨"default:visits-r0", [], [99], false, false, false⟩,
          ⟨"default:visits-r1", [99], [109], false, false, false⟩,
          ⟨"default:visits-r2", [109], [], false, false, false⟩]⟩ := by
    rw [run, firstWrites, List.foldl_cons, Write.apply, setSplitPoints, hpoints]
    decide +kernel
  obtain ⟨_, _, hkept⟩ := run_wellFormed_and_snapshots_kept firstWrites laterWrites
  exact ⟨_, hsnapshot, by decide, by decide, (hkept _ _ hsnapshot).2, by decide, by decide⟩

end Store

end KeyScan
