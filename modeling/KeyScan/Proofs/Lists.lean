import Mathlib.Data.List.Perm.Basic

/-! # Traversals, lists in pieces and lists without repetition -/

namespace KeyScan

/-! ### Steps that can fail -/

section Steps

variable {ε α β : Type} {x : Except ε α} {f : α → Except ε β} {failure : ε}

theorem bind_eq_ok_iff {y : β} : (x >>= f) = .ok y ↔ ∃ z, x = .ok z ∧ f z = .ok y := by
  cases x <;> simp [bind, Except.bind]

theorem bind_eq_error_iff :
    (x >>= f) = .error failure ↔ x = .error failure ∨ ∃ z, x = .ok z ∧ f z = .error failure := by
  cases x <;> simp [bind, Except.bind]

end Steps

/-! ### Traversals -/

theorem mapM_eq_ok_iff {ε α β : Type} {f : α → Except ε β} {xs : List α} {ys : List β} :
    xs.mapM f = .ok ys ↔ xs.map f = ys.map .ok := by
  induction xs generalizing ys with
  | nil => cases ys <;> simp [pure, Except.pure]
  | cons x rest ih =>
      rw [List.map_cons, List.mapM_cons]
      cases ys with
      | nil => cases f x <;> cases rest.mapM f <;> simp [bind, Except.bind, pure, Except.pure]
      | cons y others =>
          rw [List.map_cons, List.cons.injEq, ← ih]
          cases f x <;> cases rest.mapM f <;> simp [bind, Except.bind, pure, Except.pure]

theorem mapM_eq_ok {ε α β : Type} {f : α → Except ε β} {g : α → β} {xs : List α}
    (h : ∀ x ∈ xs, f x = .ok (g x)) : xs.mapM f = .ok (xs.map g) := by
  rw [mapM_eq_ok_iff, List.map_map]
  exact List.map_congr_left h

/-- A traversal that fails fails at an element. -/
theorem exists_mem_of_mapM_eq_error {ε α β : Type} {f : α → Except ε β} {xs : List α} {failure : ε}
    (h : xs.mapM f = .error failure) : ∃ x ∈ xs, f x = .error failure := by
  induction xs with
  | nil => simp [pure, Except.pure] at h
  | cons x rest ih =>
      rw [List.mapM_cons, bind_eq_error_iff] at h
      rcases h with hx | ⟨_, _, h⟩
      · exact ⟨x, by simp, hx⟩
      · rcases bind_eq_error_iff.mp h with hrest | ⟨_, _, h⟩
        · obtain ⟨z, hz, hfails⟩ := ih hrest
          exact ⟨z, List.mem_cons_of_mem x hz, hfails⟩
        · simp [pure, Except.pure] at h

/-- A traversal succeeds exactly if it does at every element. -/
theorem exists_map_ok_iff {ε α β : Type} {f : α → Except ε β} {xs : List α} :
    (∃ ys : List β, xs.map f = ys.map .ok) ↔ ∀ x ∈ xs, ∃ y, f x = .ok y := by
  constructor
  · rintro ⟨ys, hys⟩ x hx
    have hmem : f x ∈ ys.map .ok := hys ▸ List.mem_map_of_mem hx
    obtain ⟨y, _, hy⟩ := List.mem_map.mp hmem
    exact ⟨y, hy.symm⟩
  · intro h
    induction xs with
    | nil => exact ⟨[], rfl⟩
    | cons x rest ih =>
        obtain ⟨y, hy⟩ := h x List.mem_cons_self
        obtain ⟨ys, hys⟩ := ih fun z hz => h z (List.mem_cons_of_mem x hz)
        exact ⟨y :: ys, by rw [List.map_cons, List.map_cons, hy, hys]⟩

theorem mapM_eq_some_iff {α β : Type} {f : α → Option β} {xs : List α} {ys : List β} :
    xs.mapM f = some ys ↔ xs.map f = ys.map some := by
  induction xs generalizing ys with
  | nil => cases ys <;> simp
  | cons x rest ih =>
      cases ys with
      | nil => simp [List.mapM_cons, Option.bind_eq_some_iff]
      | cons y others =>
          rw [List.map_cons, List.map_cons, List.cons.injEq, ← ih, List.mapM_cons]
          simp [Option.bind_eq_some_iff]

theorem mapM_eq_some {α β : Type} {f : α → Option β} {g : α → β} {xs : List α}
    (h : ∀ x ∈ xs, f x = some (g x)) : xs.mapM f = some (xs.map g) := by
  rw [mapM_eq_some_iff, List.map_map]
  exact List.map_congr_left h

theorem exists_mem_of_mapM {α β : Type} {f : α → Option β} {xs : List α} {ys : List β}
    (h : xs.mapM f = some ys) {x : α} (hx : x ∈ xs) : ∃ y ∈ ys, f x = some y := by
  have hmem : f x ∈ ys.map some := mapM_eq_some_iff.mp h ▸ List.mem_map_of_mem hx
  obtain ⟨y, hy, heq⟩ := List.mem_map.mp hmem
  exact ⟨y, hy, heq.symm⟩

theorem mem_of_mapM {α β : Type} {f : α → Option β} {xs : List α} {ys : List β}
    (h : xs.mapM f = some ys) {y : β} (hy : y ∈ ys) : ∃ x ∈ xs, f x = some y := by
  have hmem : some y ∈ xs.map f := mapM_eq_some_iff.mp h ▸ List.mem_map_of_mem hy
  exact List.mem_map.mp hmem

/-- A traversal that succeeds at every element keeps all results. -/
theorem mapM_eq_some_filterMap {α β : Type} {f : α → Option β} {xs : List α}
    (h : ∀ x ∈ xs, (f x).isSome = true) : xs.mapM f = some (xs.filterMap f) := by
  rw [mapM_eq_some_iff]
  induction xs with
  | nil => rfl
  | cons x rest ih =>
      obtain ⟨y, hy⟩ := Option.isSome_iff_exists.mp (h x (by simp))
      rw [List.map_cons, ih fun z hz => h z (List.mem_cons_of_mem x hz)]
      simp [hy]

theorem isSome_mapM_iff {α β : Type} {f : α → Option β} {xs : List α} :
    (xs.mapM f).isSome = true ↔ ∀ x ∈ xs, (f x).isSome = true := by
  constructor
  · intro h x hx
    obtain ⟨ys, hys⟩ := Option.isSome_iff_exists.mp h
    obtain ⟨y, _, hy⟩ := exists_mem_of_mapM hys hx
    simp [hy]
  · intro h
    rw [mapM_eq_some_filterMap h]
    rfl

/-! ### Pieces of a list -/

theorem flatMap_ite_singleton {α β : Type} (pieces : List β) (p : β → Bool) (x : α) :
    (pieces.flatMap fun piece => if p piece then [x] else []) =
      List.replicate (pieces.countP p) x := by
  induction pieces with
  | nil => rfl
  | cons piece pieces ih =>
      rw [List.flatMap_cons, ih, List.countP_cons]
      by_cases hp : p piece = true <;> simp [hp, List.replicate_succ]

/-- Where every element lies in one of the pieces if it is wanted and in none if not, the pieces
together hold what is wanted. -/
theorem flatMap_filter_perm {α β : Type} {xs : List α} {pieces : List β} {p : β → α → Bool}
    {q : α → Bool}
    (h : ∀ x ∈ xs, (pieces.countP fun piece => p piece x) = if q x then 1 else 0) :
    (pieces.flatMap fun piece => xs.filter (p piece)).Perm (xs.filter q) := by
  induction xs with
  | nil => simp
  | cons x rest ih =>
      -- The first element is in the pieces as often as it is wanted, the others by induction.
      have hhead : (pieces.flatMap fun piece => if p piece x then [x] else []) =
          if q x then [x] else [] := by
        rw [flatMap_ite_singleton pieces (fun piece => p piece x), h x (by simp)]
        split <;> rfl
      have hsplit : (pieces.flatMap fun piece => (x :: rest).filter (p piece)) =
          pieces.flatMap fun piece =>
            (if p piece x then [x] else []) ++ rest.filter (p piece) := by
        congr 1
        funext piece
        by_cases hp : p piece x = true <;> simp [hp]
      have hjoined : (x :: rest).filter q = (if q x then [x] else []) ++ rest.filter q := by
        by_cases hq : q x = true <;> simp [hq]
      rw [hsplit, hjoined]
      refine (List.flatMap_append_perm _ _ _).symm.trans ?_
      rw [hhead]
      exact (ih fun y hy => h y (List.mem_cons_of_mem x hy)).append_left _

/-! ### Distinct elements -/

theorem eraseDupsBy_sublist {α : Type} (r : α → α → Bool) (xs : List α) :
    (xs.eraseDupsBy r).Sublist xs := by
  match xs with
  | [] => simp
  | x :: rest =>
      rw [List.eraseDupsBy_cons]
      exact ((eraseDupsBy_sublist r _).trans List.filter_sublist).cons_cons x
termination_by xs.length
decreasing_by exact Nat.lt_succ_of_le (List.length_filter_le _ _)

/-- Elements without repetition by a part of them have the distinct parts. -/
theorem map_eraseDupsBy {α β : Type} [BEq β] [LawfulBEq β] [DecidableEq β] (f : α → β)
    (xs : List α) :
    (xs.eraseDupsBy fun a b => f a = f b).map f = (xs.map f).eraseDups := by
  match xs with
  | [] => rfl
  | x :: rest =>
      rw [List.eraseDupsBy_cons, List.map_cons, List.map_cons, List.eraseDups_cons,
        map_eraseDupsBy f, List.filter_map]
      congr 4
      funext y
      by_cases hy : f y = f x <;> simp [hy]
termination_by xs.length
decreasing_by exact Nat.lt_succ_of_le (List.length_filter_le _ _)

theorem nodup_eraseDups {α : Type} [BEq α] [LawfulBEq α] (xs : List α) : xs.eraseDups.Nodup := by
  match xs with
  | [] => simp
  | x :: rest =>
      rw [List.eraseDups_cons, List.nodup_cons]
      refine ⟨?_, nodup_eraseDups _⟩
      simp
termination_by xs.length
decreasing_by exact Nat.lt_succ_of_le (List.length_filter_le _ _)

/-- Of distinct elements at most one has a property if any two that have it are the same. -/
theorem countP_le_one_iff_of_nodup {α : Type} {xs : List α} (h : xs.Nodup) (p : α → Bool) :
    xs.countP p ≤ 1 ↔ ∀ x ∈ xs, ∀ y ∈ xs, p x = true → p y = true → x = y := by
  induction xs with
  | nil => simp
  | cons x rest ih =>
      obtain ⟨hx, hrest⟩ := List.nodup_cons.mp h
      by_cases hp : p x = true
      · -- The first element has the property, so no later one may.
        have hcount : (x :: rest).countP p ≤ 1 ↔ ∀ y ∈ rest, ¬ p y = true := by
          rw [List.countP_cons_of_pos hp, ← List.countP_eq_zero]
          omega
        rw [hcount]
        constructor
        · intro hnone y hy z hz hpy hpz
          rcases List.mem_cons.mp hy with rfl | hy
          · rcases List.mem_cons.mp hz with rfl | hz
            · rfl
            · exact absurd hpz (hnone z hz)
          · exact absurd hpy (hnone y hy)
        · intro hunique y hy hpy
          have heq : x = y := hunique x (by simp) y (List.mem_cons_of_mem x hy) hp hpy
          exact hx (heq ▸ hy)
      · rw [List.countP_cons_of_neg hp, ih hrest]
        constructor
        · intro hunique y hy z hz hpy hpz
          have hy' : y ∈ rest := (List.mem_cons.mp hy).resolve_left fun heq => hp (heq ▸ hpy)
          have hz' : z ∈ rest := (List.mem_cons.mp hz).resolve_left fun heq => hp (heq ▸ hpz)
          exact hunique y hy' z hz' hpy hpz
        · intro hunique y hy z hz
          exact hunique y (List.mem_cons_of_mem x hy) z (List.mem_cons_of_mem x hz)

/-- Of lists without a common element or a repeated one, just one holds an element of theirs. -/
theorem countP_contains_of_nodup {α : Type} [BEq α] [LawfulBEq α] {lists : List (List α)}
    (h : lists.flatten.Nodup) (x : α) :
    (lists.countP fun list => list.contains x) = if lists.flatten.contains x then 1 else 0 := by
  induction lists with
  | nil => rfl
  | cons first rest ih =>
      rw [List.flatten_cons] at h ⊢
      obtain ⟨_, hrest, hdisjoint⟩ := List.nodup_append.mp h
      rw [List.countP_cons, ih hrest]
      by_cases hfirst : x ∈ first
      · have hnot : x ∉ rest.flatten := fun hmem => hdisjoint x hfirst x hmem rfl
        simp [hfirst, hnot]
      · simp [hfirst]

end KeyScan
