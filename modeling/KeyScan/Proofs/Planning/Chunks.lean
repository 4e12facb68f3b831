import KeyScan.Planning.Planner
import KeyScan.Proofs.Lists
import Mathlib.Algebra.Order.Floor.Div

/-! # Batches of wanted keys

Chunks take the keys apart in their order, as evenly as can be. However many there are, each wanted
key is in one batch, and every batch has the conditions on the other columns. -/

namespace KeyScan.Planning

/-! ### Pieces -/

section Pieces

variable {α : Type} {size count extra : Nat} {xs : List α}

theorem length_pieces (size count extra : Nat) (xs : List α) :
    (pieces size count extra xs).length = count := by
  induction count generalizing extra xs with
  | zero => rfl
  | succ count ih => rw [pieces, List.length_cons, ih]

/-- Pieces take a list apart if their sizes come to its length. -/
theorem flatten_pieces (hlength : xs.length = size * count + extra) (hextra : extra ≤ count) :
    (pieces size count extra xs).flatten = xs := by
  induction count generalizing extra xs with
  | zero =>
      obtain rfl : xs = [] := List.length_eq_zero_iff.mp (by omega)
      rfl
  | succ count ih =>
      have hsize : size * (count + 1) = size * count + size := Nat.mul_succ size count
      rw [pieces, List.flatten_cons, ih, List.take_append_drop]
      · rw [List.length_drop]
        split <;> omega
      · omega

/-- The first pieces hold one more than the others. -/
theorem map_length_pieces (hlength : xs.length = size * count + extra) (hextra : extra ≤ count) :
    (pieces size count extra xs).map List.length =
      List.replicate extra (size + 1) ++ List.replicate (count - extra) size := by
  induction count generalizing extra xs with
  | zero =>
      obtain rfl : extra = 0 := by omega
      rfl
  | succ count ih =>
      have hsize : size * (count + 1) = size * count + size := Nat.mul_succ size count
      rw [pieces, List.map_cons, List.length_take]
      cases extra with
      | zero =>
          rw [if_neg (Nat.lt_irrefl 0), ih (by rw [List.length_drop]; omega) (Nat.zero_le _),
            Nat.min_eq_left (by omega)]
          rfl
      | succ extra =>
          rw [if_pos (Nat.zero_lt_succ extra), ih (by rw [List.length_drop]; omega) (by omega),
            Nat.min_eq_left (by omega)]
          simp [List.replicate_succ]

theorem length_of_mem_pieces (hlength : xs.length = size * count + extra)
    (hextra : extra ≤ count) {piece : List α} (h : piece ∈ pieces size count extra xs) :
    piece.length = size ∨ piece.length = size + 1 ∧ 0 < extra := by
  have hmem := List.mem_map_of_mem (f := List.length) h
  rw [map_length_pieces hlength hextra, List.mem_append, List.mem_replicate,
    List.mem_replicate] at hmem
  omega

/-- The list in consecutive parts, none of them empty, with sizes that differ by at most one, the
larger ones first. -/
structure EvenParts (xs : List α) (parts : List (List α)) : Prop where
  flatten_eq : parts.flatten = xs
  ne_nil : ∀ part ∈ parts, part ≠ []
  descending : parts.Pairwise fun a b => b.length ≤ a.length
  within_one : ∀ a ∈ parts, ∀ b ∈ parts, a.length ≤ b.length + 1

theorem evenParts_pieces (hsize : 0 < size) (hlength : xs.length = size * count + extra)
    (hextra : extra ≤ count) : EvenParts xs (pieces size count extra xs) where
  flatten_eq := flatten_pieces hlength hextra
  ne_nil := by
    intro piece hpiece
    have hsizes := length_of_mem_pieces hlength hextra hpiece
    exact List.ne_nil_of_length_pos (by omega)
  descending := by
    have hsizes : ((pieces size count extra xs).map List.length).Pairwise (· ≥ ·) := by
      rw [map_length_pieces hlength hextra, List.pairwise_append]
      refine ⟨List.pairwise_replicate.mpr (Or.inr (Nat.le_refl _)),
        List.pairwise_replicate.mpr (Or.inr (Nat.le_refl _)), ?_⟩
      intro a ha b hb
      rw [(List.mem_replicate.mp ha).2, (List.mem_replicate.mp hb).2]
      exact Nat.le_succ size
    exact List.pairwise_map.mp hsizes
  within_one := by
    intro a ha b hb
    have hsize := length_of_mem_pieces hlength hextra ha
    have hother := length_of_mem_pieces hlength hextra hb
    omega

end Pieces

/-! ### Chunks -/

/-- The number of keys over the smallest size, rounded up, unless that is more than allowed. -/
theorem chunkCount_eq (config : PlannerConfig) {total : Nat} (h : 0 < total) :
    chunkCount config total =
      min (total ⌈/⌉ max config.minChunkSize 1) (max config.maxBatches 1) := by
  simp only [chunkCount, chunkSize, Nat.ceilDiv_eq_add_pred_div]
  generalize hleast : max config.minChunkSize 1 = least
  generalize hmost : max config.maxBatches 1 = most
  split
  · -- The size aimed at is the larger one, and with it the limit is reached, as it is without.
    rename_i hmany
    have hsize : 0 < total / most :=
      Nat.div_pos (Nat.le_trans (Nat.le_of_lt hmany) (Nat.div_le_self _ _)) (by omega)
    have hreached : most ≤ (total + total / most - 1) / (total / most) := by
      rw [Nat.le_div_iff_mul_le hsize]
      have hwhole : most * (total / most) ≤ total := Nat.mul_div_le total most
      omega
    have hup : total / least ≤ (total + least - 1) / least := Nat.div_le_div_right (by omega)
    omega
  · have hone : 0 < (total + least - 1) / least := Nat.div_pos (by omega) (by omega)
    omega

theorem chunkCount_pos (config : PlannerConfig) (total : Nat) : 0 < chunkCount config total := by
  unfold chunkCount
  simp only
  omega

/-- There is a key for every chunk. -/
theorem chunkCount_le (config : PlannerConfig) {total : Nat} (h : 0 < total) :
    chunkCount config total ≤ total := by
  rw [chunkCount_eq config h]
  refine Nat.le_trans (Nat.min_le_left _ _) ?_
  rw [ceilDiv_le_iff_le_mul (by omega)]
  exact Nat.le_mul_of_pos_left total (by omega)

theorem evenParts_chunks {α : Type} (config : PlannerConfig) (keys : List α) :
    EvenParts keys (chunks config keys) := by
  rw [chunks]
  split
  · rename_i hempty
    rw [List.isEmpty_iff.mp hempty]
    exact ⟨rfl, by simp, List.Pairwise.nil, by simp⟩
  · rename_i hkeys
    have htotal : 0 < keys.length :=
      List.length_pos_iff.mpr fun hnil => hkeys (List.isEmpty_iff.mpr hnil)
    have hcount := chunkCount_pos config keys.length
    exact evenParts_pieces (Nat.div_pos (chunkCount_le config htotal) hcount)
      (Nat.div_add_mod' _ _).symm (Nat.le_of_lt (Nat.mod_lt _ hcount))

theorem flatten_chunks {α : Type} (config : PlannerConfig) (keys : List α) :
    (chunks config keys).flatten = keys :=
  (evenParts_chunks config keys).flatten_eq

theorem length_chunks {α : Type} (config : PlannerConfig) (keys : List α) :
    (chunks config keys).length =
      min (keys.length ⌈/⌉ max config.minChunkSize 1) (max config.maxBatches 1) := by
  cases keys with
  | nil => simp [chunks]
  | cons key rest =>
      rw [chunks, if_neg (by simp), length_pieces, chunkCount_eq config (by simp)]

theorem length_chunks_le {α : Type} (config : PlannerConfig) (keys : List α) :
    (chunks config keys).length ≤ max config.maxBatches 1 := by
  rw [length_chunks]
  exact Nat.min_le_right _ _

/-- As long as more chunks are allowed, none of them holds more keys than it has to. -/
theorem length_chunk_le {α : Type} {config : PlannerConfig} {keys chunk : List α}
    (h : chunk ∈ chunks config keys)
    (hfew : (chunks config keys).length < max config.maxBatches 1) :
    chunk.length ≤ max config.minChunkSize 1 := by
  have hlength := length_chunks config keys
  have hleast : 0 < max config.minChunkSize 1 := by omega
  have hcover : keys.length ≤ max config.minChunkSize 1 * (chunks config keys).length := by
    have huncapped : (chunks config keys).length = keys.length ⌈/⌉ max config.minChunkSize 1 := by
      omega
    rw [huncapped]
    exact le_smul_ceilDiv hleast
  rw [chunks] at h hcover
  split at h
  · simp at h
  · rename_i hkeys
    rw [if_neg hkeys, length_pieces] at hcover
    have hcount := chunkCount_pos config keys.length
    have hdivision := (Nat.div_add_mod' keys.length (chunkCount config keys.length)).symm
    have hsize : keys.length / chunkCount config keys.length ≤ max config.minChunkSize 1 :=
      Nat.div_le_of_le_mul (by rwa [Nat.mul_comm])
    rcases length_of_mem_pieces hdivision (Nat.le_of_lt (Nat.mod_lt _ hcount)) h with
      hpiece | ⟨hpiece, hextra⟩
    · omega
    · have hless : keys.length / chunkCount config keys.length ≠ max config.minChunkSize 1 := by
        intro heq
        rw [heq] at hdivision
        omega
      omega

/-- Chunks cut the keys evenly, into as few parts as the smallest size asks for, or into the most
that are allowed: only then does one of them hold more keys than that size. -/
theorem chunks_cut_evenly {α : Type} (config : PlannerConfig) (keys : List α) :
    EvenParts keys (chunks config keys) ∧
      (chunks config keys).length ≤ max config.maxBatches 1 ∧
      (chunks config keys).length =
        min (keys.length ⌈/⌉ max config.minChunkSize 1) (max config.maxBatches 1) ∧
      ∀ chunk ∈ chunks config keys, max config.minChunkSize 1 < chunk.length →
        (chunks config keys).length = max config.maxBatches 1 := by
  have hmost := length_chunks_le config keys
  refine ⟨evenParts_chunks config keys, hmost, length_chunks config keys, ?_⟩
  intro chunk hchunk hlarge
  by_contra hreached
  have hsmall := length_chunk_le hchunk (by omega)
  omega

/-- Seven keys fill three pairs, but three chunks have to hold them all. -/
theorem chunks_cut_evenly_seven :
    [0, 1, 2] ∈ chunks { minChunkSize := 2, maxBatches := 3 } (List.range 7) ∧
      (chunks { minChunkSize := 2, maxBatches := 3 } (List.range 7)).flatten = List.range 7 ∧
      (chunks { minChunkSize := 2, maxBatches := 3 } (List.range 7)).length = 3 := by
  obtain ⟨heven, _, _, hreached⟩ :=
    chunks_cut_evenly { minChunkSize := 2, maxBatches := 3 } (List.range 7)
  have hfirst : [0, 1, 2] ∈ chunks { minChunkSize := 2, maxBatches := 3 } (List.range 7) := by
    decide
  exact ⟨hfirst, heven.flatten_eq, hreached _ hfirst (by decide)⟩

/-! ### Wanted keys -/

variable {conditions : List Condition} {info : TableMeta} {config : PlannerConfig}

theorem map_fst_wantedKeys (conditions : List Condition) (info : TableMeta) :
    (wantedKeys conditions info).map Prod.fst =
      ((conditions.filter fun c => c.isEqualityOn info.rowKeyColumn).map fun c =>
        c.value.key).eraseDups := by
  rw [wantedKeys, map_eraseDupsBy, List.map_map]
  rfl

theorem isEqualityOn_of_mem_wantedKeys {wanted : Key × Condition}
    (h : wanted ∈ wantedKeys conditions info) :
    wanted.2.isEqualityOn info.rowKeyColumn = true := by
  obtain ⟨c, hc, rfl⟩ := List.mem_map.mp ((eraseDupsBy_sublist _ _).subset h)
  exact (List.mem_filter.mp hc).2

theorem nodup_wantedKeys (conditions : List Condition) (info : TableMeta) :
    ((wantedKeys conditions info).map Prod.fst).Nodup := by
  rw [map_fst_wantedKeys]
  exact nodup_eraseDups _

/-- Just one batch looks up a wanted key, and none looks up another. -/
theorem countP_chunks_wantedKeys (key : Key) :
    ((chunks config (wantedKeys conditions info)).countP fun chunk =>
        (chunk.map Prod.fst).contains key) =
      if ((wantedKeys conditions info).map Prod.fst).contains key then 1 else 0 := by
  have hflatten : ((chunks config (wantedKeys conditions info)).map fun chunk =>
      chunk.map Prod.fst).flatten = (wantedKeys conditions info).map Prod.fst := by
    rw [← List.map_flatten, flatten_chunks]
  have hnodup := nodup_wantedKeys conditions info
  rw [← hflatten] at hnodup ⊢
  rw [← countP_contains_of_nodup hnodup, List.countP_map]
  rfl

end KeyScan.Planning
