import KeyScan.Proofs.Planning.Snapshots

/-! # Attempts at a snapshot

Each pending failure of a store costs one attempt at a snapshot, and a name that is taken or a table that
is not there costs all of them. -/

namespace KeyScan

/-! ### One attempt at a snapshot -/

namespace Store

/-- A snapshot of the table can be taken under the name, once no failure is pending. -/
def CanTake (store : Store) (name table : String) : Prop :=
  store.snapshots.find? name = none ∧ ∃ stored, store.tables.find? table = some stored

/-- The store after some of its pending failures. -/
def spend (store : Store) (failures : Nat) : Store :=
  { store with pendingFailures := store.pendingFailures - failures }

variable {store : Store} {name schema table : String}

theorem createSnapshot_eq_ok (hpending : store.pendingFailures = 0)
    (hname : store.snapshots.find? name = none) {stored : StoredTable}
    (hstored : store.tables.find? (qualifiedName schema table) = some stored) :
    store.createSnapshot name schema table =
      (.ok (), { store with
        snapshots := store.snapshots.insert name
          ⟨qualifiedName schema table, stored.rows,
            regionsOf (qualifiedName schema table) stored⟩ }) := by
  have hcontains : store.snapshots.contains name = false := by
    rw [OrderedMap.contains_eq_isSome_find?, hname]
    rfl
  simp [createSnapshot, hpending, hcontains, hstored]

/-- Of a store that is not ready for it, taking a snapshot costs a pending failure if there is one. -/
theorem createSnapshot_eq_error
    (h : 0 < store.pendingFailures ∨ ¬ store.CanTake name (qualifiedName schema table)) :
    ∃ failure, store.createSnapshot name schema table = (.error failure, store.spend 1) := by
  rcases store.createSnapshot_cases name schema table with hfails | ⟨stored, hname, hstored, hcreate⟩
  · exact hfails
  · rcases h with hpending | hnot
    · simp [createSnapshot, hpending, spend]
    · exact absurd ⟨hname, stored, hstored⟩ hnot

end Store

/-! ### Attempts under one name -/

namespace Planning

variable {config : RetryConfig} {schema table stamp : String} {store : Store}

theorem attemptSnapshot_of_canTake (hallowed : store.pendingFailures < config.maxAttempts.toNat)
    (hname : store.snapshots.find? (snapshotName schema table stamp) = none) {stored : StoredTable}
    (hstored : store.tables.find? (qualifiedName schema table) = some stored) :
    attemptSnapshot config schema table stamp store =
      ⟨Retry.numbersFrom 1 (store.pendingFailures + 1),
        (Retry.numbersFrom 0 store.pendingFailures).map config.backoff, .ok (),
        { store.spend store.pendingFailures with
          snapshots := store.snapshots.insert (snapshotName schema table stamp)
            ⟨qualifiedName schema table, stored.rows,
              Store.regionsOf (qualifiedName schema table) stored⟩ }⟩ := by
  have hspent : (store.spend store.pendingFailures).pendingFailures = 0 := Nat.sub_self _
  refine Retry.run_of_success store.spend hallowed ?_ ?_
  · intro i hi
    exact Store.createSnapshot_eq_error (Or.inl (Nat.sub_pos_of_lt hi))
  · exact Store.createSnapshot_eq_ok hspent hname hstored

/-- Where the snapshot can be taken in as many attempts as are allowed, its regions are found. -/
theorem exists_snapshotRegions_eq_ok {timed : Timed}
    (hallowed : timed.store.pendingFailures < config.maxAttempts.toNat)
    (hcan : timed.store.CanTake (snapshotName schema table stamp) (qualifiedName schema table)) :
    ∃ found after, snapshotRegions config stamp schema table timed = (.ok found, after) := by
  obtain ⟨hname, stored, hstored⟩ := hcan
  obtain ⟨after, hcreate⟩ : ∃ after, createWithRetry config schema table stamp timed =
      (.ok (snapshotName schema table stamp), after) := by
    rw [createWithRetry, attemptSnapshot_of_canTake hallowed hname hstored]
    exact ⟨_, rfl⟩
  obtain ⟨_, _, hholds⟩ := holds_of_createWithRetry hcreate
  rw [snapshotRegions, hcreate]
  simp only [hholds.liveRegions_eq_ok]
  exact ⟨_, after, rfl⟩

/-- Every attempt fails where there are pending failures for all of them, or where none can succeed. -/
theorem attemptSnapshot_of_not_canTake
    (h : ¬ (store.pendingFailures < config.maxAttempts.toNat ∧
      store.CanTake (snapshotName schema table stamp) (qualifiedName schema table))) :
    ∃ failure,
      ((store.spend (config.maxAttempts.toNat - 1)).createSnapshot
        (snapshotName schema table stamp) schema table).1 = .error failure ∧
      attemptSnapshot config schema table stamp store =
        ⟨Retry.numbersFrom 1 config.maxAttempts.toNat,
          (Retry.numbersFrom 0 (config.maxAttempts.toNat - 1)).map config.backoff,
          .error ⟨config.maxAttempts, failure⟩, store.spend config.maxAttempts.toNat⟩ := by
  have hpositive := config.maxAttempts_pos
  have hfails : ∀ i < config.maxAttempts.toNat, ∃ failure,
      (store.spend i).createSnapshot (snapshotName schema table stamp) schema table =
        (.error failure, store.spend (i + 1)) := by
    intro i hi
    refine Store.createSnapshot_eq_error ?_
    by_cases hpending : store.pendingFailures < config.maxAttempts.toNat
    · exact Or.inr fun hcan => h ⟨hpending, hcan⟩
    · exact Or.inl (Nat.sub_pos_of_lt (by omega))
  have hallowed : config.maxAttempts.toNat - 1 + 1 = config.maxAttempts.toNat :=
    Nat.sub_add_cancel hpositive
  obtain ⟨failure, hlast⟩ := hfails (config.maxAttempts.toNat - 1) (by omega)
  rw [hallowed] at hlast
  refine ⟨failure, congrArg Prod.fst hlast, ?_⟩
  refine Eq.trans (Retry.run_of_failures store.spend hallowed ?_ hlast) (by rw [hallowed])
  exact fun i hi => hfails i (by omega)

/-- What attempts under one name do, however they end: they are numbered from one, with the configured
delay before each retry, each uses up a pending failure if there is one, and no table is changed. -/
structure Attempted (config : RetryConfig) (schema table stamp : String) (before after : Timed)
    (made : Nat) : Prop where
  attempts : (attemptSnapshot config schema table stamp before.store).attempts =
    Retry.numbersFrom 1 made
  delays : after.delays = before.delays ++ (Retry.numbersFrom 0 (made - 1)).map config.backoff
  failures : after.store.pendingFailures =
    before.store.pendingFailures - min before.store.pendingFailures made
  tables : after.store.tables = before.store.tables

variable {before after : Timed} {result : Except Error String}

/-- A snapshot is taken with retries exactly if fewer failures are pending than attempts are allowed, the
table is there and the name is free. Then one snapshot is added, of the table as it is, at the attempt
after the pending failures. Otherwise every attempt that is allowed is made, the last one's error is told,
and the snapshots are as before. -/
theorem createWithRetry_all_or_nothing
    (h : createWithRetry config schema table stamp before = (result, after)) :
    (result = .ok (snapshotName schema table stamp) ↔
      before.store.pendingFailures < config.maxAttempts.toNat ∧
        before.store.CanTake (snapshotName schema table stamp) (qualifiedName schema table)) ∧
    (result = .ok (snapshotName schema table stamp) →
      Attempted config schema table stamp before after (before.store.pendingFailures + 1) ∧
        after.store.pendingFailures = 0 ∧
        after.store.snapshotCount = before.store.snapshotCount + 1 ∧
        ∃ stored, before.store.tables.find? (qualifiedName schema table) = some stored ∧
          after.store.snapshots = before.store.snapshots.insert (snapshotName schema table stamp)
            ⟨qualifiedName schema table, stored.rows,
              Store.regionsOf (qualifiedName schema table) stored⟩) ∧
    (result ≠ .ok (snapshotName schema table stamp) →
      Attempted config schema table stamp before after config.maxAttempts.toNat ∧
        after.store.snapshots = before.store.snapshots ∧
        ∃ failure,
          ((before.store.spend (config.maxAttempts.toNat - 1)).createSnapshot
            (snapshotName schema table stamp) schema table).1 = .error failure ∧
          result = .error (.snapshotFailed (snapshotName schema table stamp) config.maxAttempts
            failure.message)) := by
  obtain ⟨hresult, rfl⟩ := Prod.mk.inj h
  by_cases hcan : before.store.pendingFailures < config.maxAttempts.toNat ∧
      before.store.CanTake (snapshotName schema table stamp) (qualifiedName schema table)
  · obtain ⟨hallowed, hname, stored, hstored⟩ := hcan
    have hrun := attemptSnapshot_of_canTake hallowed hname hstored
    have hok : result = .ok (snapshotName schema table stamp) := by
      rw [← hresult, hrun]
      rfl
    refine ⟨iff_of_true hok ⟨hallowed, hname, stored, hstored⟩, fun _ => ?_,
      fun hnot => absurd hok hnot⟩
    refine ⟨⟨congrArg Retry.Run.attempts hrun, ?_, ?_, ?_⟩, ?_, ?_, stored, hstored, ?_⟩
    · simp [hrun]
    · simp [hrun, Store.spend]
    · simp [hrun, Store.spend]
    · simp [hrun, Store.spend]
    · simpa [hrun, Store.snapshotCount] using OrderedMap.size_insert_of_find?_eq_none hname _
    · simp [hrun, Store.spend]
  · obtain ⟨failure, hlast, hrun⟩ := attemptSnapshot_of_not_canTake hcan
    have herror : result = .error (.snapshotFailed (snapshotName schema table stamp)
        config.maxAttempts failure.message) := by
      rw [← hresult, hrun]
      rfl
    have hnot : result ≠ .ok (snapshotName schema table stamp) := by simp [herror]
    refine ⟨iff_of_false hnot hcan, fun hok => absurd hok hnot, fun _ => ?_⟩
    refine ⟨⟨congrArg Retry.Run.attempts hrun, ?_, ?_, ?_⟩, ?_, failure, hlast, herror⟩
    · simp [hrun]
    · simp only [hrun, Store.spend]
      omega
    · simp [hrun, Store.spend]
    · simp [hrun, Store.spend]

/-- A store with one empty table, of which the next two snapshots are to fail. -/
def failingTwice : Timed :=
  ⟨{ tables := ⟨[("default:visits", {})]⟩, pendingFailures := 2 }, []⟩

/-- With three retries the third attempt takes the snapshot; with one, both attempts fail. -/
theorem createWithRetry_all_or_nothing_visits :
    (∃ after, createWithRetry {} "default" "visits" "7" failingTwice =
        (.ok "ss-default.visits-7", after) ∧
      after.delays.length = 2 ∧ after.store.snapshotCount = 1 ∧ after.store.pendingFailures = 0) ∧
    ∃ after failure, createWithRetry { maxRetries := 1 } "default" "visits" "7" failingTwice =
        (.error (.snapshotFailed "ss-default.visits-7" 2 failure), after) ∧
      after.delays.length = 1 ∧ after.store.snapshotCount = 0 ∧ after.store.pendingFailures = 0 := by
  have hcan : failingTwice.store.CanTake "ss-default.visits-7" "default:visits" :=
    ⟨by decide, {}, by decide⟩
  constructor
  · rcases hcreate : createWithRetry {} "default" "visits" "7" failingTwice with ⟨result, after⟩
    obtain ⟨hiff, htaken, _⟩ := createWithRetry_all_or_nothing hcreate
    have hok := hiff.mpr ⟨by decide, hcan⟩
    obtain ⟨hattempted, hpending, hcount, _⟩ := htaken hok
    exact ⟨after, Prod.ext hok rfl, by rw [hattempted.delays]; rfl, hcount, hpending⟩
  · rcases hcreate : createWithRetry { maxRetries := 1 } "default" "visits" "7" failingTwice with
      ⟨result, after⟩
    obtain ⟨hiff, _, hexhausted⟩ := createWithRetry_all_or_nothing hcreate
    have hnot := mt hiff.mp fun hallowed => absurd hallowed.1 (by decide)
    obtain ⟨hattempted, hsnapshots, failure, _, herror⟩ := hexhausted hnot
    refine ⟨after, failure.message, Prod.ext herror rfl, ?_, ?_, ?_⟩
    · rw [hattempted.delays]
      rfl
    · rw [Store.snapshotCount, hsnapshots]
      rfl
    · rw [hattempted.failures]
      rfl

end Planning

end KeyScan
