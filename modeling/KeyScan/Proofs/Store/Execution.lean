import KeyScan.Proofs.Lists
import KeyScan.Store.Cursor

/-! # Splits executed together

A cursor hands out all its rows, whatever the page size, and the tasks that drain the splits may finish
in any order: the rows are those of the splits' own reads, split by split. -/

namespace KeyScan

/-! ### Pages -/

namespace Cursor

variable {cursor : Cursor}

/-- A cursor whose rows have run out stays as it is; any other one gives its first rows, at least one and
no more than a page holds, and keeps the rest. -/
theorem nextPage_cases (hpage : 0 < cursor.pageSize) :
    (cursor.rows = [] ∧ cursor.nextPage = (none, cursor)) ∨
      ∃ page rest, cursor.nextPage = (some page, { cursor with rows := rest }) ∧
        cursor.rows = page ++ rest ∧ page ≠ [] ∧ page.length ≤ cursor.pageSize := by
  rw [nextPage]
  split
  · rename_i hempty
    exact Or.inl ⟨List.isEmpty_iff.mp hempty, rfl⟩
  · rename_i hrows
    refine Or.inr ⟨_, _, rfl, (List.take_append_drop _ _).symm, ?_, List.length_take_le _ _⟩
    rw [Ne, List.take_eq_nil_iff, not_or]
    exact ⟨Nat.ne_of_gt hpage, by simpa using hrows⟩

/-- As many pages as there are rows are enough, as no page is empty. -/
theorem flatten_pagesUpTo {count : Nat} (hpage : 0 < cursor.pageSize)
    (hcount : cursor.rows.length ≤ count) : (cursor.pagesUpTo count).flatten = cursor.rows := by
  induction count generalizing cursor with
  | zero =>
      have hempty : cursor.rows = [] := List.length_eq_zero_iff.mp (Nat.le_zero.mp hcount)
      rw [pagesUpTo, hempty, List.flatten_nil]
  | succ count ih =>
      rcases nextPage_cases hpage with ⟨hempty, hnext⟩ | ⟨page, rest, hnext, hrows, hfull, _⟩
      · rw [pagesUpTo, hnext, hempty, List.flatten_nil]
      · have hlength := List.length_pos_of_ne_nil hfull
        rw [hrows, List.length_append] at hcount
        have hrest : (({ cursor with rows := rest } : Cursor).pagesUpTo count).flatten = rest :=
          @ih { cursor with rows := rest } hpage (by simp only; omega)
        simp only [pagesUpTo, hnext, List.flatten_cons, hrows]
        rw [hrest]

theorem flatten_pages (hpage : 0 < cursor.pageSize) : cursor.pages.flatten = cursor.rows :=
  flatten_pagesUpTo hpage (Nat.le_refl _)

end Cursor

/-! ### Tasks -/

/-- A split and the request that reads it. -/
abbrev Work := Split × ScanRequest

namespace Store

variable {store : Store} {pageSize : Nat}

/-- Page after page, a split is read as by one read. -/
theorem drainSplit_eq_readSplit (hpage : 0 < pageSize) (work : Work) :
    store.drainSplit pageSize work = store.readSplit work.1 work.2 := by
  rw [drainSplit, Cursor.openOn, if_neg (Nat.ne_of_gt hpage)]
  cases store.readSplit work.1 work.2 with
  | error failure => rfl
  | ok rows => exact congrArg Except.ok (Cursor.flatten_pages hpage)

theorem executeSplits_nil : store.executeSplits pageSize [] = .ok [] := rfl

theorem executeSplits_cons (work : Work) (rest : List Work) :
    store.executeSplits pageSize (work :: rest) =
      (store.drainSplit pageSize work).bind fun part =>
        (store.executeSplits pageSize rest).map fun rows => part ++ rows := by
  rw [executeSplits, executeSplits, List.mapM_cons]
  cases store.drainSplit pageSize work <;> cases rest.mapM (store.drainSplit pageSize) <;> rfl

/-- What gathering comes to while tasks are running, with the rows gathered so far: any of the tasks may
be the next to finish, and the first to fail ends it. -/
inductive Gathers (store : Store) (pageSize : Nat) :
    List Work → List Row → Except Error (List Row) → Prop
  | done (rows : List Row) : Gathers store pageSize [] rows (.ok rows)
  | finish {running rest : List Work} {rows part : List Row} {work : Work}
      {result : Except Error (List Row)} (hnext : running.Perm (work :: rest))
      (hpart : store.drainSplit pageSize work = .ok part)
      (hrest : Gathers store pageSize rest (rows ++ part) result) :
      Gathers store pageSize running rows result
  | fail {running : List Work} {rows : List Row} {work : Work} {failure : Error}
      (hwork : work ∈ running) (hfailure : store.drainSplit pageSize work = .error failure) :
      Gathers store pageSize running rows (.error failure)

/-- Gathering comes to what executing the splits does in the order in which the tasks finish. -/
theorem gathers_iff {running : List Work} {rows : List Row} {result : Except Error (List Row)} :
    store.Gathers pageSize running rows result ↔
      ∃ finished : List Work, finished.Perm running ∧
        (store.executeSplits pageSize finished).map (fun later => rows ++ later) = result := by
  constructor
  · intro h
    induction h with
    | done rows => exact ⟨[], .nil, by simp [executeSplits_nil, Except.map]⟩
    | @finish _ _ _ _ work _ hnext hpart _ ih =>
        obtain ⟨finished, hfinished, rfl⟩ := ih
        refine ⟨work :: finished, (hfinished.cons work).trans hnext.symm, ?_⟩
        rw [executeSplits_cons, hpart]
        cases store.executeSplits pageSize finished <;> simp [Except.bind, Except.map]
    | @fail _ _ work _ hwork hfailure =>
        obtain ⟨before, after, rfl⟩ := List.append_of_mem hwork
        refine ⟨work :: (before ++ after), List.perm_middle.symm, ?_⟩
        rw [executeSplits_cons, hfailure]
        rfl
  · rintro ⟨finished, hfinished, rfl⟩
    induction finished generalizing running rows with
    | nil =>
        rw [List.nil_perm.mp hfinished]
        simpa [executeSplits_nil, Except.map] using Gathers.done rows
    | cons work rest ih =>
        cases hdrain : store.drainSplit pageSize work with
        | error failure =>
            rw [executeSplits_cons, hdrain]
            exact .fail (hfinished.subset List.mem_cons_self) hdrain
        | ok part =>
            rw [executeSplits_cons, hdrain]
            refine .finish hfinished.symm hdrain ?_
            have hlater : store.Gathers pageSize rest (rows ++ part)
                ((store.executeSplits pageSize rest).map fun later => rows ++ part ++ later) :=
              ih (List.Perm.refl rest)
            cases hrest : store.executeSplits pageSize rest <;>
              simpa [hrest, Except.bind, Except.map] using hlater

/-- The rows that each split's own read returns, in the order of the splits. -/
def PartsOf (store : Store) (work : List Work) (parts : List (List Row)) : Prop :=
  (work.map fun item => store.readSplit item.1 item.2) = parts.map .ok

theorem PartsOf.perm {work other : List Work} {parts otherParts : List (List Row)}
    (h : store.PartsOf work parts) (hother : store.PartsOf other otherParts)
    (hwork : other.Perm work) : otherParts.flatten.Perm parts.flatten := by
  have hreads := hwork.map fun item => store.readSplit item.1 item.2
  rw [h, hother] at hreads
  exact ((List.map_perm_map_iff fun _ _ => Except.ok.inj).mp hreads).flatten

/-- Splits are executed with success exactly if each of them is read with success; the rows are then those
of the reads, one split after another. -/
theorem executeSplits_eq_ok_iff (hpage : 0 < pageSize) {finished : List Work} {rows : List Row} :
    store.executeSplits pageSize finished = .ok rows ↔
      ∃ parts, store.PartsOf finished parts ∧ rows = parts.flatten := by
  have hreads : store.drainSplit pageSize = fun item => store.readSplit item.1 item.2 :=
    funext (drainSplit_eq_readSplit hpage)
  rw [executeSplits, hreads]
  constructor
  · intro h
    cases hparts : finished.mapM fun item => store.readSplit item.1 item.2 with
    | error failure => simp [hparts, Except.map] at h
    | ok parts =>
        rw [hparts] at h
        exact ⟨parts, mapM_eq_ok_iff.mp hparts, (Except.ok.inj h).symm⟩
  · rintro ⟨parts, hparts, rfl⟩
    rw [mapM_eq_ok_iff.mpr hparts]
    rfl

/-- Gathering the rows of all splits, in whatever order their tasks finish, is executing the splits in that
order. It succeeds exactly if every split's own read does; then the rows of each split stay together, and
all of them are the rows of the reads, for any order and any page size. -/
theorem executeSplits_in_any_order (store : Store) (work : List Work) {pageSize : Nat}
    (hpage : 0 < pageSize) :
    (∀ result, store.Gathers pageSize work [] result ↔
      ∃ finished : List Work, finished.Perm work ∧
        store.executeSplits pageSize finished = result) ∧
    ∀ finished : List Work, finished.Perm work →
      ((∃ rows, store.executeSplits pageSize finished = .ok rows) ↔
        ∀ item ∈ work, ∃ rows, store.readSplit item.1 item.2 = .ok rows) ∧
      ∀ rows, store.executeSplits pageSize finished = .ok rows →
        (∃ parts, store.PartsOf finished parts ∧ rows = parts.flatten) ∧
        (∃ parts, store.PartsOf work parts ∧ rows.Perm parts.flatten) ∧
        ∀ (otherSize : Nat) (other : List Work), 0 < otherSize → other.Perm work →
          ∃ otherRows, store.executeSplits otherSize other = .ok otherRows ∧
            otherRows.Perm rows := by
  have hreads : ∀ {finished : List Work}, finished.Perm work →
      ((∃ parts, store.PartsOf finished parts) ↔
        ∀ item ∈ work, ∃ rows, store.readSplit item.1 item.2 = .ok rows) := by
    intro finished hfinished
    refine exists_map_ok_iff.trans ?_
    simp only [hfinished.mem_iff]
  refine ⟨fun result => ?_, fun finished hfinished => ⟨?_, ?_⟩⟩
  · rw [gathers_iff]
    refine exists_congr fun finished => and_congr_right fun _ => ?_
    cases store.executeSplits pageSize finished <;> simp [Except.map]
  · rw [← hreads hfinished]
    constructor
    · rintro ⟨rows, hrows⟩
      obtain ⟨parts, hparts, _⟩ := (executeSplits_eq_ok_iff hpage).mp hrows
      exact ⟨parts, hparts⟩
    · rintro ⟨parts, hparts⟩
      exact ⟨parts.flatten, (executeSplits_eq_ok_iff hpage).mpr ⟨parts, hparts, rfl⟩⟩
  · intro rows hrows
    obtain ⟨parts, hparts, rfl⟩ := (executeSplits_eq_ok_iff hpage).mp hrows
    have hall := (hreads hfinished).mp ⟨parts, hparts⟩
    obtain ⟨whole, hwhole⟩ := (hreads (List.Perm.refl work)).mpr hall
    refine ⟨⟨parts, hparts, rfl⟩, ⟨whole, hwhole, hwhole.perm hparts hfinished⟩, ?_⟩
    intro otherSize other hsize hother
    obtain ⟨otherParts, hotherParts⟩ := (hreads hother).mpr hall
    refine ⟨otherParts.flatten, ?_, hparts.perm hotherParts (hother.trans hfinished.symm)⟩
    exact (executeSplits_eq_ok_iff hsize).mpr ⟨otherParts, hotherParts, rfl⟩

/-- A table with two rows. -/
def twoVisits : Store :=
  { tables := ⟨[("default:visits", { rows := ⟨[([97], { key := [97] }), ([98], { key := [98] })]⟩ })]⟩ }

/-- A split of that table that is read for every cell. -/
def visitWork (unit : ScanUnit) : Work :=
  (⟨"default", "visits", "visit", [], [], unit⟩, {})

/-- A scan and a look-up, in pages of one row with the look-up first, and in one page the other way. -/
theorem executeSplits_in_any_order_visits :
    ∃ rows, twoVisits.executeSplits 1
        [visitWork (.batchGet [[98], [122]]), visitWork (.keyRange .unbounded)] = .ok rows ∧
      rows.map Row.key = [[98], [97], [98]] ∧
      ∃ otherRows, twoVisits.executeSplits 9
          [visitWork (.keyRange .unbounded), visitWork (.batchGet [[98], [122]])] = .ok otherRows ∧
        otherRows.map Row.key = [[97], [98], [98]] ∧ otherRows.Perm rows := by
  obtain ⟨_, hexecute⟩ := executeSplits_in_any_order twoVisits
    [visitWork (.keyRange .unbounded), visitWork (.batchGet [[98], [122]])] Nat.zero_lt_one
  obtain ⟨_, hrows⟩ := hexecute
    [visitWork (.batchGet [[98], [122]]), visitWork (.keyRange .unbounded)] (.swap _ _ _)
  have hfirst : twoVisits.executeSplits 1
      [visitWork (.batchGet [[98], [122]]), visitWork (.keyRange .unbounded)] =
        .ok [{ key := [98] }, { key := [97] }, { key := [98] }] := by decide
  have hsecond : twoVisits.executeSplits 9
      [visitWork (.keyRange .unbounded), visitWork (.batchGet [[98], [122]])] =
        .ok [{ key := [97] }, { key := [98] }, { key := [98] }] := by decide
  obtain ⟨otherRows, hother, hperm⟩ := (hrows _ hfirst).2.2 9 _ (by decide) (.refl _)
  obtain rfl : _ = otherRows := Except.ok.inj (hsecond.symm.trans hother)
  exact ⟨_, hfirst, rfl, _, hsecond, rfl, hperm⟩

end Store

end KeyScan
