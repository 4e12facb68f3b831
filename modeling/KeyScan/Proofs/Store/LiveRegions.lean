import KeyScan.Proofs.Planning.Snapshots
import KeyScan.Proofs.Store.Invariants
import Mathlib.Data.List.Induction

/-! # The regions that writes lead to

A table is cut at the split points that were set last, in whatever order and however often they were
given, and its manifest has every entry that was added. So the live regions of a snapshot are known from
the writes before it: they divide the key space at those points. -/

namespace KeyScan

/-- The regions hold every key once. None is empty, and the keys of each come before those of the
next. -/
structure Region.DivideKeys (regions : List Region) : Prop where
  once : ∀ key, KeyRange.coverCount (regions.map Region.keyRange) key = 1
  inhabited : ∀ region ∈ regions, ∃ key, key ∈ region.keyRange
  ascending : regions.Pairwise fun a b => ∀ x ∈ a.keyRange, ∀ y ∈ b.keyRange, x < y

namespace Store

/-! ### What writes give a table -/

/-- The split points that a write sets on a table. -/
def Write.splitPoints? (table : String) : Write → Option (List Key)
  | setSplitPoints other points => if other = table then some points else none
  | _ => none

/-- The manifest entry that a write adds to a table. -/
def Write.region? (table : String) : Write → Option Region
  | addRegion other region => if other = table then some region else none
  | _ => none

/-- The split points set last on a table, as they were given. -/
def lastSplitPoints (table : String) (writes : List Write) : List Key :=
  (writes.filterMap (Write.splitPoints? table)).getLast?.getD []

/-- The manifest entries added to a table. -/
def addedRegions (table : String) (writes : List Write) : List Region :=
  writes.filterMap (Write.region? table)

/-- A table as it is, or as it would be created. -/
def tableOf (store : Store) (table : String) : StoredTable :=
  (store.tables.find? table).getD {}

variable {store : Store}

theorem tableOf_changeTable (store : Store) (other table : String)
    (change : StoredTable → StoredTable) :
    (store.changeTable other change).tableOf table =
      if other = table then change (store.tableOf table) else store.tableOf table := by
  rw [tableOf, changeTable, OrderedMap.find?_insert]
  by_cases hname : other = table <;> simp [hname, tableOf]

/-- Split points change only where they are set, and entries only where one is added. -/
theorem tableOf_apply (store : Store) (table : String) (write : Write) :
    ((write.apply store).tableOf table).splitPoints =
        ((write.splitPoints? table).map normalSplitPoints).getD
          (store.tableOf table).splitPoints ∧
      ((write.apply store).tableOf table).extraRegions =
        (store.tableOf table).extraRegions ++ (write.region? table).toList := by
  cases write with
  | createTable other =>
      rw [Write.apply, createTable, tableOf_changeTable]
      split <;> simp [Write.splitPoints?, Write.region?]
  | putRows other rows =>
      rw [Write.apply, putRows, tableOf_changeTable]
      split <;> simp [Write.splitPoints?, Write.region?]
  | setSplitPoints other points =>
      rw [Write.apply, setSplitPoints, tableOf_changeTable]
      split <;> simp_all [Write.splitPoints?, Write.region?]
  | addRegion other region =>
      rw [Write.apply, addRegion, tableOf_changeTable]
      split <;> simp_all [Write.splitPoints?, Write.region?]
  | delete other keys =>
      rw [Write.apply, Store.delete]
      split
      · simp [Write.splitPoints?, Write.region?]
      · rw [tableOf_changeTable]
        split <;> simp [Write.splitPoints?, Write.region?]
  | failNextSnapshots count => simp [Write.apply, failNextSnapshots, tableOf, Write.splitPoints?,
      Write.region?]
  | createSnapshot name schema other =>
      rw [tableOf, Write.apply, tables_createSnapshot]
      simp [tableOf, Write.splitPoints?, Write.region?]

/-- After a run a table has the split points that were set last, in order, and all entries that were
added. -/
theorem tableOf_run (table : String) (writes : List Write) :
    ((run {} writes).tableOf table).splitPoints =
        normalSplitPoints (lastSplitPoints table writes) ∧
      ((run {} writes).tableOf table).extraRegions = addedRegions table writes := by
  induction writes using List.reverseRecOn with
  | nil => exact ⟨by simp [run, tableOf, OrderedMap.find?, OrderedMap.empty, normalSplitPoints,
      lastSplitPoints], rfl⟩
  | append_singleton writes write ih =>
      obtain ⟨hpoints, hregions⟩ := tableOf_apply (run {} writes) table write
      rw [run_append, run, List.foldl_cons, List.foldl_nil, hpoints, hregions, ih.1, ih.2]
      constructor
      · rw [lastSplitPoints, lastSplitPoints, List.filterMap_append]
        cases hset : write.splitPoints? table <;> simp [hset]
      · rw [addedRegions, addedRegions, List.filterMap_append]
        cases hadded : write.region? table <;> simp [hadded]

theorem mem_normalSplitPoints_iff {points : List Key} {point : Key} :
    point ∈ normalSplitPoints points ↔ point ∈ points ∧ point ≠ [] := by
  rw [normalSplitPoints, List.mem_eraseDups, List.mem_mergeSort, List.mem_filter]
  simp

/-! ### Regions between ascending points -/

section Regions

variable {table : String} {index : Nat} {start : Key} {points : List Key} {region : Region}

theorem map_startKey_regionsFrom (table : String) (index : Nat) (start : Key) (points : List Key) :
    (regionsFrom table index start points).map Region.startKey = start :: points := by
  induction points generalizing index start with
  | nil => rfl
  | cons point rest ih => rw [regionsFrom, List.map_cons, ih]

/-- A region from a boundary on has no key before it. -/
theorem le_of_mem_regionsFrom (hpast : ∀ point ∈ points, start < point)
    (hregion : region ∈ regionsFrom table index start points) {key : Key}
    (hkey : key ∈ region.keyRange) : start ≤ key := by
  have hstart : region.startKey ∈ start :: points := by
    rw [← map_startKey_regionsFrom table index start points]
    exact List.mem_map_of_mem hregion
  have hle : region.startKey ≤ key := ((region.mem_keyRange_iff key).mp hkey).1
  rcases List.mem_cons.mp hstart with heq | hpoint
  · rwa [← heq]
  · exact Std.le_trans (Std.le_of_lt (hpast _ hpoint)) hle

/-- Every region holds the key it starts at. -/
theorem startKey_mem_of_mem_regionsFrom (hpast : ∀ point ∈ points, start < point)
    (hascending : points.Pairwise fun a b => a < b)
    (hregion : region ∈ regionsFrom table index start points) :
    region.startKey ∈ region.keyRange := by
  rw [Region.mem_keyRange_iff]
  refine ⟨List.le_refl _, ?_⟩
  induction points generalizing index start with
  | nil =>
      rw [regionsFrom, List.mem_singleton] at hregion
      exact Or.inl (by rw [hregion])
  | cons point rest ih =>
      obtain ⟨hhead, htail⟩ := List.pairwise_cons.mp hascending
      rw [regionsFrom] at hregion
      rcases List.mem_cons.mp hregion with rfl | hrest
      · exact Or.inr (hpast point List.mem_cons_self)
      · exact ih hhead htail hrest

/-- The keys of a region come before those of the regions after it. -/
theorem pairwise_regionsFrom (hpast : ∀ point ∈ points, start < point)
    (hascending : points.Pairwise fun a b => a < b) :
    (regionsFrom table index start points).Pairwise fun a b =>
      ∀ x ∈ a.keyRange, ∀ y ∈ b.keyRange, x < y := by
  induction points generalizing index start with
  | nil => exact List.pairwise_singleton _ _
  | cons point rest ih =>
      obtain ⟨hhead, htail⟩ := List.pairwise_cons.mp hascending
      rw [regionsFrom, List.pairwise_cons]
      refine ⟨?_, ih hhead htail⟩
      intro region hregion x hx y hy
      have hbound : point ≠ [] := by
        rintro rfl
        simpa using hpast [] List.mem_cons_self
      -- The point between the two is past every key of the first and not past any of the second.
      have hbefore : x < point := by
        simpa [hbound] using (Region.mem_keyRange_iff _ x).mp hx |>.2
      exact Std.lt_of_lt_of_le hbefore (le_of_mem_regionsFrom hhead hregion hy)

end Regions

/-- The regions between the split points of a table in order divide the key space. -/
theorem divideKeys_regionsFrom {stored : StoredTable} (h : stored.WellFormed) (name : String) :
    Region.DivideKeys (regionsFrom name 0 [] stored.splitPoints) where
  once := coverCount_liveRegions h name
  inhabited := fun region hregion => ⟨region.startKey,
    startKey_mem_of_mem_regionsFrom (nil_lt_of_mem_splitPoints h) h.ascending hregion⟩
  ascending := pairwise_regionsFrom (nil_lt_of_mem_splitPoints h) h.ascending

/-- Whatever was written before a snapshot was taken, and whatever after: if every manifest entry added
to the table is stale, the live regions of the snapshot divide the key space. They start at the empty
key and at the split points that were set last, whether given in order or not, more than once or empty. -/
theorem liveRegions_divide_keys (writes later : List Write) (name schema table : String)
    (hstale : ∀ region ∈ addedRegions (qualifiedName schema table) writes, region.isStale = true)
    (htaken : ((run {} writes).createSnapshot name schema table).1 = .ok ()) :
    ∃ regions,
      (run {} (writes ++ .createSnapshot name schema table :: later)).liveRegions name =
        .ok regions ∧
      Region.DivideKeys regions ∧
      ∀ key, key ∈ regions.map Region.startKey ↔
        key = [] ∨ key ∈ lastSplitPoints (qualifiedName schema table) writes := by
  obtain ⟨stored, hstored, hholds⟩ := holds_of_createSnapshot htaken
  obtain ⟨hpoints, hregions⟩ := tableOf_run (qualifiedName schema table) writes
  rw [tableOf, hstored, Option.getD_some] at hpoints hregions
  have hordered : stored.WellFormed := (Reachable.empty.run writes).wellFormed.find? hstored
  have hkept : (run {} (writes ++ .createSnapshot name schema table :: later)).snapshots.find? name =
      some ⟨qualifiedName schema table, stored.rows, regionsOf (qualifiedName schema table) stored⟩ := by
    rw [run_append]
    exact find?_snapshots_run hholds later
  refine ⟨regionsFrom (qualifiedName schema table) 0 [] stored.splitPoints, ?_,
    divideKeys_regionsFrom hordered _, ?_⟩
  · rw [liveRegions, listRegions, hkept]
    exact congrArg Except.ok (filter_regionsOf (hregions ▸ hstale))
  · intro key
    rw [map_startKey_regionsFrom, hpoints, List.mem_cons, mem_normalSplitPoints_iff]
    by_cases hkey : key = [] <;> simp [hkey]

/-- Writes that split a table at `m` and, in place of that, at `c` and `x`, and keep the entry of the
region that was split. -/
def resplitWrites : List Write :=
  [.setSplitPoints "default:visits" [[109]],
    .addRegion "default:visits" ⟨"parent", [109], [], true, true, false⟩,
    .setSplitPoints "default:visits" [[120], [], [99], [120]],
    .addRegion "default:others" ⟨"whole", [], [], false, false, false⟩,
    .putRows "default:visits" [⟨[98], .empty⟩]]

/-- A table in three regions, which a later split leaves as they were. -/
theorem liveRegions_divide_keys_resplit :
    ∃ regions,
      (run {} (resplitWrites ++ [.createSnapshot "first" "default" "visits",
        .setSplitPoints "default:visits" [[97]]])).liveRegions "first" = .ok regions ∧
      Region.DivideKeys regions ∧
      (∀ key, key ∈ regions.map Region.startKey ↔ key = [] ∨ key ∈ [[120], [], [99], [120]]) :=
  liveRegions_divide_keys resplitWrites [.setSplitPoints "default:visits" [[97]]] "first" "default"
    "visits" (by decide) (by rfl)

end Store

end KeyScan
