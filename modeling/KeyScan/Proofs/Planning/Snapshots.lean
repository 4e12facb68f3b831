import KeyScan.Planning.Snapshots
import KeyScan.Proofs.Planning.Retries
import KeyScan.Proofs.Store.Regions

/-! # Snapshots taken for a plan

Attempts that fail leave the tables as they are, so the snapshot of the attempt that succeeds is the
table as it was before the first. -/

namespace KeyScan

namespace Store

/-- The snapshot holds the rows of the table and lists its regions. -/
def Holds (store : Store) (name table : String) (stored : StoredTable) : Prop :=
  store.snapshots.find? name = some ⟨table, stored.rows, regionsOf table stored⟩

theorem Holds.apply {store : Store} {name table : String} {stored : StoredTable}
    (h : store.Holds name table stored) (write : Write) :
    (write.apply store).Holds name table stored :=
  find?_snapshots_apply h write

theorem Holds.liveRegions_eq_ok {store : Store} {name table : String} {stored : StoredTable}
    (h : store.Holds name table stored) :
    store.liveRegions name =
      .ok ((regionsOf table stored).filter fun region => !region.isStale) := by
  rw [liveRegions, listRegions, h]
  rfl

theorem holds_of_createSnapshot {store : Store} {name schema table : String}
    (h : (store.createSnapshot name schema table).1 = .ok ()) :
    ∃ stored, store.tables.find? (qualifiedName schema table) = some stored ∧
      (store.createSnapshot name schema table).2.Holds name (qualifiedName schema table)
        stored := by
  rcases store.createSnapshot_cases name schema table with ⟨_, hcreate⟩ | ⟨stored, _, hstored, hcreate⟩
  · simp [hcreate] at h
  · refine ⟨stored, hstored, ?_⟩
    rw [Holds, hcreate, OrderedMap.find?_insert, if_pos rfl]

end Store

namespace Planning

variable {config : RetryConfig} {schema table stamp : String} {timed after : Timed}

theorem holds_of_createWithRetry {name : String}
    (h : createWithRetry config schema table stamp timed = (.ok name, after)) :
    ∃ stored, timed.store.tables.find? (qualifiedName schema table) = some stored ∧
      after.store.Holds name (qualifiedName schema table) stored := by
  rw [createWithRetry] at h
  simp only [Prod.mk.injEq] at h
  obtain ⟨hresult, rfl⟩ := h
  cases hrun : (attemptSnapshot config schema table stamp timed.store).result with
  | error exhausted => simp [snapshotResult, hrun] at hresult
  | ok value =>
      simp only [snapshotResult, hrun, Except.ok.injEq] at hresult
      subst hresult
      refine Retry.attemptFrom_succeeds
        (P := fun store => store.tables = timed.store.tables)
        (Q := fun store => ∃ stored,
          timed.store.tables.find? (qualifiedName schema table) = some stored ∧
            store.Holds (snapshotName schema table stamp) (qualifiedName schema table) stored)
        ?_ ?_ rfl hrun
      · intro _ store _ next htables hcreate
        rw [← htables, ← Store.tables_createSnapshot store, hcreate]
      · intro _ store _ next htables hcreate
        rw [← htables]
        have hholds := Store.holds_of_createSnapshot (congrArg Prod.fst hcreate)
        rwa [hcreate] at hholds

/-- The regions of a plan are those of a snapshot of the table as it was before. -/
theorem holds_of_snapshotRegions {name : String} {regions : List Region}
    (h : snapshotRegions config stamp schema table timed = (.ok (name, regions), after)) :
    ∃ stored, timed.store.tables.find? (qualifiedName schema table) = some stored ∧
      after.store.Holds name (qualifiedName schema table) stored ∧
      regions = (Store.regionsOf (qualifiedName schema table) stored).filter
        fun region => !region.isStale := by
  rw [snapshotRegions] at h
  split at h
  · simp at h
  · rename_i taken next hcreate
    obtain ⟨stored, hstored, hholds⟩ := holds_of_createWithRetry hcreate
    rw [hholds.liveRegions_eq_ok] at h
    obtain ⟨hresult, rfl⟩ := Prod.mk.inj h
    obtain ⟨rfl, rfl⟩ := Prod.mk.inj (Except.ok.inj hresult)
    exact ⟨stored, hstored, hholds, rfl⟩

end Planning

end KeyScan
