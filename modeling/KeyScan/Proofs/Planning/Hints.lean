import KeyScan.Planning.Planner
import Mathlib.Algebra.Order.Floor.Div
import Mathlib.Data.Int.CardIntervalMod
import Mathlib.Data.List.Nodup

/-! # Hints to workers

The workers take turns over the splits in the order in which these are planned, so each is hinted to for
as many as any other, or for one more or less. Shuffling the splits afterwards moves the hints with them. -/

namespace KeyScan

/-! ### Turns -/

namespace SchedulingConfig

variable {config : SchedulingConfig} {port : UInt16}

theorem hostFor_eq_none (h : config.workerPort = none ∨ config.workerHosts = []) (index : Nat) :
    config.hostFor index = none := by
  rw [hostFor]
  rcases h with hport | hhosts
  · rw [hport]
    rfl
  · cases config.workerPort <;> simp [hhosts]

theorem hostFor_eq_some (hport : config.workerPort = some port) {index : Nat}
    (hturn : index % config.workerHosts.length < config.workerHosts.length) :
    config.hostFor index = some ⟨config.workerHosts[index % config.workerHosts.length], port⟩ := by
  rw [hostFor, hport, List.getElem?_eq_getElem hturn]
  rfl

end SchedulingConfig

/-- Of the first `total` turns of `count` workers each worker has the same share, and where that does not
come out even the first ones have one turn more. -/
theorem count_turns {count : Nat} (total : Nat) {position : Nat} (h : position < count) :
    Nat.count (fun index => index % count = position) total =
      total / count + if position < total % count then 1 else 0 := by
  have hturn : ∀ index, index % count = position ↔ index ≡ position [MOD count] := by
    intro index
    rw [Nat.ModEq, Nat.mod_eq_of_lt h]
  have hcount := Nat.count_modEq_card total (Nat.zero_lt_of_lt h) position
  rw [Nat.mod_eq_of_lt h] at hcount
  simp only [hturn, hcount]

/-- The share of a worker is rounded down or up. -/
theorem share_eq_floor_or_ceil {count : Nat} (total : Nat) {position : Nat} (h : position < count) :
    (total / count + if position < total % count then 1 else 0) = total / count ∨
      (total / count + if position < total % count then 1 else 0) = total ⌈/⌉ count := by
  split
  · rename_i hextra
    right
    have hpos : 0 < count := Nat.zero_lt_of_lt h
    have hround : total + count - 1 = count * (total / count + 1) + (total % count - 1) := by
      have hdivision := Nat.div_add_mod total count
      rw [Nat.mul_add, Nat.mul_one]
      omega
    have hless := Nat.mod_lt total hpos
    rw [Nat.ceilDiv_eq_add_pred_div, hround, Nat.mul_add_div hpos,
      Nat.div_eq_of_lt (show total % count - 1 < count by omega), Nat.add_zero]
  · exact Or.inl (Nat.add_zero _)

namespace Planning

variable {config : Config} {info : TableMeta} {units : List PlannedUnit} {port : UInt16}

/-! ### Splits in the order of planning -/

/-- Where what is asked of a split is a matter of its turn, it is asked of the turns. -/
theorem countP_splitsOf {p : Split → Bool} {turn : Nat → Prop} [DecidablePred turn]
    (h : ∀ unit index, p (splitOf config info unit index) = decide (turn index))
    (units : List PlannedUnit) :
    (splitsOf config info units).countP p = Nat.count turn units.length := by
  calc (splitsOf config info units).countP p
      = units.zipIdx.countP fun planned => decide (turn planned.2) := by
        rw [splitsOf, List.countP_map]
        exact congrArg (List.countP · units.zipIdx) (funext fun planned => h planned.1 planned.2)
    _ = (units.zipIdx.map Prod.snd).countP fun index => decide (turn index) := by
        rw [List.countP_map]
        rfl
    _ = Nat.count turn units.length := by
        rw [List.zipIdx_map_snd, ← List.range_eq_range']
        rfl

/-- Of distinct workers, the one at a position is hinted to in every turn of that position. -/
theorem countP_hinted (hport : config.scheduling.workerPort = some port)
    (hdistinct : config.scheduling.workerHosts.Nodup) {position : Nat}
    (h : position < config.scheduling.workerHosts.length) (units : List PlannedUnit) :
    ((splitsOf config info units).countP fun split =>
        split.hostHints = [⟨config.scheduling.workerHosts[position], port⟩]) =
      units.length / config.scheduling.workerHosts.length +
        if position < units.length % config.scheduling.workerHosts.length then 1 else 0 := by
  rw [← count_turns units.length h]
  apply countP_splitsOf
  intro unit index
  have hturn := Nat.mod_lt index (Nat.zero_lt_of_lt h)
  simp only [splitOf, SchedulingConfig.hostFor_eq_some hport hturn, Option.toList_some,
    List.cons.injEq, and_true, HostAddress.mk.injEq, hdistinct.getElem_inj_iff]

/-- The workers are hinted to evenly: every split has one hint, and every worker the same share of the
hints, rounded down or up. -/
structure HintsBalanced (hosts : List String) (port : UInt16) (splits : List Split) : Prop where
  hinted : ∀ split ∈ splits, ∃ host ∈ hosts, split.hostHints = [⟨host, port⟩]
  share : ∀ host ∈ hosts,
    (splits.countP fun split => split.hostHints = [⟨host, port⟩]) = splits.length / hosts.length ∨
      (splits.countP fun split => split.hostHints = [⟨host, port⟩]) =
        splits.length ⌈/⌉ hosts.length

theorem hintsBalanced_splitsOf (hport : config.scheduling.workerPort = some port)
    (hhosts : config.scheduling.workerHosts ≠ [])
    (hdistinct : config.scheduling.workerHosts.Nodup) (units : List PlannedUnit) :
    HintsBalanced config.scheduling.workerHosts port (splitsOf config info units) where
  hinted := by
    intro split hsplit
    obtain ⟨⟨unit, index⟩, _, rfl⟩ := List.mem_map.mp hsplit
    have hturn := Nat.mod_lt index (List.length_pos_of_ne_nil hhosts)
    refine ⟨_, List.getElem_mem hturn, ?_⟩
    simp only [splitOf, SchedulingConfig.hostFor_eq_some hport hturn, Option.toList_some]
  share := by
    intro host hhost
    obtain ⟨position, hposition, rfl⟩ := List.getElem_of_mem hhost
    have hlength : (splitsOf config info units).length = units.length := by
      rw [splitsOf, List.length_map, List.length_zipIdx]
    rw [countP_hinted hport hdistinct hposition, hlength]
    exact share_eq_floor_or_ceil units.length hposition

theorem HintsBalanced.perm {hosts : List String} {splits others : List Split}
    (h : HintsBalanced hosts port splits) (hperm : others.Perm splits) :
    HintsBalanced hosts port others where
  hinted := fun split hsplit => h.hinted split (hperm.mem_iff.mp hsplit)
  share := by
    intro host hhost
    rw [hperm.countP_eq, hperm.length_eq]
    exact h.share host hhost

theorem hostHints_splitsOf_eq_nil
    (h : config.scheduling.workerPort = none ∨ config.scheduling.workerHosts = [])
    {split : Split} (hsplit : split ∈ splitsOf config info units) : split.hostHints = [] := by
  obtain ⟨⟨unit, index⟩, _, rfl⟩ := List.mem_map.mp hsplit
  simp only [splitOf, SchedulingConfig.hostFor_eq_none h, Option.toList_none]

/-! ### Plans -/

/-- A plan has the planned units with their hints, in whatever order it is shuffled to. Distinct workers
with a port are hinted to evenly; where there is no worker or no port there are no hints. -/
theorem planWith_hints_balanced {σ : Type} {source : RegionSource σ}
    {shuffle : List Split → List Split} (hshuffle : ∀ splits, (shuffle splits).Perm splits)
    {conditions : List Condition} {state after : σ} {splits : List Split}
    (hplan : planWith config source shuffle conditions info state = (.ok splits, after)) :
    (∃ units, planUnits config source conditions info state = (.ok units, after) ∧
      ∀ other : List Split → List Split, (∀ splits, (other splits).Perm splits) →
        ∃ others, planWith config source other conditions info state = (.ok others, after) ∧
          (others.map fun split => (split.unit, split.conditions, split.hostHints)).Perm
            (units.mapIdx fun index unit =>
              (unit.1, unit.2, (config.scheduling.hostFor index).toList))) ∧
      (∀ port, config.scheduling.workerPort = some port → config.scheduling.workerHosts ≠ [] →
        config.scheduling.workerHosts.Nodup →
        HintsBalanced config.scheduling.workerHosts port splits) ∧
      (config.scheduling.workerPort = none ∨ config.scheduling.workerHosts = [] →
        ∀ split ∈ splits, split.hostHints = []) := by
  obtain ⟨hinfo, units, hunits, rfl⟩ := planWith_eq_ok_iff.mp hplan
  have hperm := hshuffle (splitsOf config info units)
  refine ⟨⟨units, hunits, ?_⟩, ?_, ?_⟩
  · intro other hother
    refine ⟨_, planWith_eq_ok_iff.mpr ⟨hinfo, units, hunits, rfl⟩, ?_⟩
    rw [List.mapIdx_eq_zipIdx_map]
    have hparts := (hother (splitsOf config info units)).map fun split =>
      (split.unit, split.conditions, split.hostHints)
    rwa [splitsOf, List.map_map] at hparts
  · intro port hport hhosts hdistinct
    exact (hintsBalanced_splitsOf hport hhosts hdistinct units).perm hperm
  · intro hnone split hsplit
    exact hostHints_splitsOf_eq_nil hnone (hperm.mem_iff.mp hsplit)

/-- Three workers, each reading one key at a time. -/
def threeWorkers : Config where
  planner := { minChunkSize := 1 }
  scheduling := { workerHosts := ["w1", "w2", "w3"], workerPort := some 9000 }

/-- Five visits, looked up by their keys. -/
def fiveVisits : List Condition :=
  ["a", "b", "c", "d", "e"].map fun key => .equals "visit" (.varchar key)

/-- Five splits for three workers, two for each but the third. The last split planned comes first, with
the hint that it was planned with. -/
theorem planWith_hints_balanced_visits :
    ∃ splits, planWith threeWorkers noSnapshots List.reverse fiveVisits
        { schema := "default", table := "visits", rowKeyColumn := "visit" } () = (.ok splits, ()) ∧
      HintsBalanced ["w1", "w2", "w3"] 9000 splits ∧
      splits.map Split.hostHints =
        [[⟨"w2", 9000⟩], [⟨"w1", 9000⟩], [⟨"w3", 9000⟩], [⟨"w2", 9000⟩], [⟨"w1", 9000⟩]] := by
  obtain ⟨splits, hplan, hhints⟩ : ∃ splits,
      planWith threeWorkers noSnapshots List.reverse fiveVisits
        { schema := "default", table := "visits", rowKeyColumn := "visit" } () = (.ok splits, ()) ∧
      splits.map Split.hostHints =
        [[⟨"w2", 9000⟩], [⟨"w1", 9000⟩], [⟨"w3", 9000⟩], [⟨"w2", 9000⟩], [⟨"w1", 9000⟩]] :=
    ⟨_, rfl, by decide⟩
  obtain ⟨_, hbalanced, _⟩ := planWith_hints_balanced (fun splits => List.reverse_perm splits) hplan
  exact ⟨splits, hplan, hbalanced 9000 rfl (by decide) (by decide), hhints⟩

end Planning

end KeyScan
