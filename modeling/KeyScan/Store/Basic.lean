import KeyScan.OrderedMap
import KeyScan.Region
import KeyScan.Request
import KeyScan.Table.Meta

/-!
The key-value store: tables of rows in key order, and snapshots of them that later writes leave as
they are. A snapshot lists the regions between the split points that the table had.
-/

namespace KeyScan

/-- A live table: its rows by key, the boundaries of its regions, and the manifest entries that its
snapshots list besides. -/
structure StoredTable where
  rows : OrderedMap Key Row := .empty
  splitPoints : List Key := []
  extraRegions : List Region := []
  deriving DecidableEq, Repr

/-- A table as it was. -/
structure Snapshot where
  table : String
  rows : OrderedMap Key Row
  regions : List Region
  deriving DecidableEq, Repr

/-- Tables and snapshots by name, and how many snapshots are still to fail. -/
structure Store where
  tables : OrderedMap String StoredTable := .empty
  snapshots : OrderedMap String Snapshot := .empty
  pendingFailures : Nat := 0
  deriving DecidableEq, Repr

namespace Store

/-! ### Writing -/

/-- Changes a table, which is created if it is not there. -/
def changeTable (store : Store) (table : String) (change : StoredTable → StoredTable) : Store :=
  { store with
    tables := store.tables.insert table (change ((store.tables.find? table).getD {})) }

def createTable (store : Store) (table : String) : Store :=
  store.changeTable table id

/-- Puts rows under their keys, a later one in the place of an earlier one. -/
def putRows (store : Store) (table : String) (rows : List Row) : Store :=
  store.changeTable table fun stored =>
    { stored with rows := rows.foldl (fun held row => held.insert row.key row) stored.rows }

/-- The keys that cut a table into regions: not empty, ascending, each once. -/
def normalSplitPoints (points : List Key) : List Key :=
  ((points.filter fun point => point ≠ []).mergeSort fun a b => a ≤ b).eraseDups

def setSplitPoints (store : Store) (table : String) (points : List Key) : Store :=
  store.changeTable table fun stored => { stored with splitPoints := normalSplitPoints points }

/-- Adds a manifest entry that later snapshots list as it is. -/
def addRegion (store : Store) (table : String) (region : Region) : Store :=
  store.changeTable table fun stored =>
    { stored with extraRegions := stored.extraRegions ++ [region] }

/-- Removes rows by key, and counts those that were there. -/
def removeRows : OrderedMap Key Row → List Key → Nat × OrderedMap Key Row
  | rows, [] => (0, rows)
  | rows, key :: rest =>
      let (count, left) := removeRows (rows.erase key) rest
      (if rows.contains key then count + 1 else count, left)

/-- Deletes rows by key; the answer is how many there were. -/
def delete (store : Store) (table : String) (keys : List Key) : Except Error Nat × Store :=
  match store.tables.find? table with
  | none => (.error (.notFound "table" table), store)
  | some stored =>
      let (count, rows) := removeRows stored.rows keys
      (.ok count, store.changeTable table fun stored => { stored with rows })

def rowCount (store : Store) (table : String) : Nat :=
  match store.tables.find? table with
  | some stored => stored.rows.size
  | none => 0

/-! ### Snapshots -/

/-- The regions from a boundary on, one before each split point and one after the last. -/
def regionsFrom (table : String) (index : Nat) (start : Key) : List Key → List Region
  | [] => [⟨table ++ "-r" ++ Text.ofInteger index, start, [], false, false, false⟩]
  | point :: rest =>
      ⟨table ++ "-r" ++ Text.ofInteger index, start, point, false, false, false⟩ ::
        regionsFrom table (index + 1) point rest

/-- What a snapshot of the table lists. -/
def regionsOf (name : String) (stored : StoredTable) : List Region :=
  regionsFrom name 0 [] stored.splitPoints ++ stored.extraRegions

def failNextSnapshots (store : Store) (count : Nat) : Store :=
  { store with pendingFailures := count }

/-- Takes a snapshot of a table under a name of its own. -/
def createSnapshot (store : Store) (name schema table : String) : Except Error Unit × Store :=
  let qualified := qualifiedName schema table
  if 0 < store.pendingFailures then
    (.error (.storage ("snapshot " ++ name ++ " of " ++ qualified ++ " failed")),
      { store with pendingFailures := store.pendingFailures - 1 })
  else if store.snapshots.contains name then (.error (.alreadyExists "snapshot" name), store)
  else
    match store.tables.find? qualified with
    | none => (.error (.notFound "table" qualified), store)
    | some stored =>
        let snapshot := ⟨qualified, stored.rows, regionsOf qualified stored⟩
        (.ok (), { store with snapshots := store.snapshots.insert name snapshot })

def snapshotCount (store : Store) : Nat :=
  store.snapshots.size

/-- Every region that a snapshot lists. -/
def listRegions (store : Store) (name : String) : Except Error (List Region) :=
  match store.snapshots.find? name with
  | some snapshot => .ok snapshot.regions
  | none => .error (.notFound "snapshot" name)

/-- The regions of a snapshot that hold its rows. -/
def liveRegions (store : Store) (name : String) : Except Error (List Region) :=
  (store.listRegions name).map fun regions => regions.filter fun region => !region.isStale

end Store

end KeyScan
