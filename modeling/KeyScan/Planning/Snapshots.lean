import KeyScan.Planning.Retry
import KeyScan.Store.Basic

/-!
Snapshots for region-local reads: each is taken under a new name, with retries, and its live regions
become the units of the read.
-/

namespace KeyScan.Planning

/-- The name of a snapshot of a table, told apart from others by a time stamp. -/
def snapshotName (schema table stamp : String) : String :=
  "ss-" ++ schema ++ "." ++ table ++ "-" ++ stamp

/-- Tries to take a snapshot under one name. -/
def attemptSnapshot (config : RetryConfig) (schema table stamp : String) (store : Store) :
    Retry.Run Store Unit :=
  Retry.runWith config
    (fun _ store => store.createSnapshot (snapshotName schema table stamp) schema table) store

/-- The name of a snapshot that was taken, or that every attempt failed. -/
def snapshotResult (name : String) : Except Retry.Exhausted Unit → Except Error String
  | .ok () => .ok name
  | .error exhausted =>
      .error (.snapshotFailed name exhausted.attempts exhausted.lastError.message)

/-- A store with the delays that were waited while it was acted on. -/
structure Timed where
  store : Store
  delays : List UInt64 := []

/-- Takes a snapshot with retries. -/
def createWithRetry (config : RetryConfig) (schema table stamp : String) (timed : Timed) :
    Except Error String × Timed :=
  let run := attemptSnapshot config schema table stamp timed.store
  (snapshotResult (snapshotName schema table stamp) run.result,
    ⟨run.state, timed.delays ++ run.delays⟩)

/-- Takes a snapshot and lists its live regions. -/
def snapshotRegions (config : RetryConfig) (stamp schema table : String) (timed : Timed) :
    Except Error (String × List Region) × Timed :=
  match createWithRetry config schema table stamp timed with
  | (.error error, timed) => (.error error, timed)
  | (.ok name, timed) => ((timed.store.liveRegions name).map fun regions => (name, regions), timed)

end KeyScan.Planning
