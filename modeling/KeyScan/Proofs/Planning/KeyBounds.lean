import KeyScan.Planning.KeyBounds
import KeyScan.Proofs.Filter.RowKey
import KeyScan.Proofs.Key.Range

/-! # The hull of the row-key conditions

The hull holds every key that the row-key filter admits, and where it is exact it holds no other. -/

namespace KeyScan

namespace Condition

theorem admitsKey_iff_startKey_le {c : Condition} (h : c.operator.isLowerBound = true) (key : Key) :
    c.AdmitsKey key ↔ KeyBounds.startKey c ≤ key := by
  obtain ⟨column, operator, value, valueType⟩ := c
  cases operator with
  | gt => simp [AdmitsKey, KeyBounds.startKey, Comparison.ofOperator, Comparison.holds,
      Key.successor_le_iff]
  | ge => simp [AdmitsKey, KeyBounds.startKey, Comparison.ofOperator, Comparison.holds]
  | _ => simp [Operator.isLowerBound] at h

theorem admitsKey_iff_lt_stopKey {c : Condition} (h : c.operator.isUpperBound = true) (key : Key) :
    c.AdmitsKey key ↔ key < KeyBounds.stopKey c := by
  obtain ⟨column, operator, value, valueType⟩ := c
  cases operator with
  | lt => simp [AdmitsKey, KeyBounds.stopKey, Comparison.ofOperator, Comparison.holds]
  | le => simp [AdmitsKey, KeyBounds.stopKey, Comparison.ofOperator, Comparison.holds,
      Key.lt_successor_iff]
  | _ => simp [Operator.isUpperBound] at h

end Condition

namespace KeyBounds

/-! ### The least and the greatest of a list of keys -/

/-- A choice that bounds both of two keys bounds each of a list of them. -/
private theorem foldl_choose {bounds : Key → Key → Prop} {choose : Key → Key → Key}
    (hrefl : ∀ a, bounds a a) (htrans : ∀ {a b c}, bounds a b → bounds b c → bounds a c)
    (hchoose : ∀ a b, bounds (choose a b) a ∧ bounds (choose a b) b) (keys : List Key)
    (key : Key) : ∀ k ∈ key :: keys, bounds (keys.foldl choose key) k := by
  induction keys generalizing key with
  | nil =>
      intro k hk
      rw [List.mem_singleton.mp hk]
      exact hrefl key
  | cons next rest ih =>
      have hnext := ih (choose key next)
      have hhead := hnext _ List.mem_cons_self
      intro k hk
      rcases List.mem_cons.mp hk with rfl | hk
      · exact htrans hhead (hchoose k next).1
      · rcases List.mem_cons.mp hk with rfl | hk
        · exact htrans hhead (hchoose key k).2
        · exact hnext k (List.mem_cons_of_mem _ hk)

theorem smallest?_le {keys : List Key} {key least : Key} (hkey : key ∈ keys)
    (hleast : smallest? keys = some least) : least ≤ key := by
  cases keys with
  | nil => simp at hkey
  | cons first rest =>
      obtain rfl := Option.some.inj hleast
      exact foldl_choose Std.le_refl Std.le_trans KeyRange.smaller_le rest first key hkey

theorem le_largest? {keys : List Key} {key greatest : Key} (hkey : key ∈ keys)
    (hgreatest : largest? keys = some greatest) : key ≤ greatest := by
  cases keys with
  | nil => simp at hkey
  | cons first rest =>
      obtain rfl := Option.some.inj hgreatest
      have hlarger : ∀ a b, a ≤ Key.larger a b ∧ b ≤ Key.larger a b := fun a b =>
        (KeyRange.larger_le_iff a b _).mp (Std.le_refl _)
      exact @foldl_choose (· ≥ ·) Key.larger Std.le_refl (fun h h' => Std.le_trans h' h) hlarger
        rest first key hkey

private theorem foldl_larger_mem (keys : List Key) (key : Key) :
    keys.foldl Key.larger key ∈ key :: keys := by
  induction keys generalizing key with
  | nil => exact List.mem_cons_self
  | cons next rest ih =>
      have hlarger : Key.larger key next = key ∨ Key.larger key next = next := by
        rw [Key.larger]
        split <;> simp
      rw [List.foldl_cons, List.mem_cons]
      rcases List.mem_cons.mp (ih (Key.larger key next)) with heq | hmem
      · rw [heq, List.mem_cons]
        exact hlarger.imp_right Or.inl
      · exact Or.inr (List.mem_cons_of_mem next hmem)

/-- The greatest of some keys is one of them. -/
theorem mem_of_largest? {keys : List Key} {greatest : Key} (h : largest? keys = some greatest) :
    greatest ∈ keys := by
  cases keys with
  | nil => simp [largest?] at h
  | cons first rest =>
      obtain rfl := Option.some.inj h
      exact foldl_larger_mem rest first

theorem largest?_eq_some_nil_iff {keys : List Key} :
    largest? keys = some [] ↔ keys ≠ [] ∧ ∀ key ∈ keys, key = [] := by
  constructor
  · intro hlargest
    refine ⟨List.ne_nil_of_mem (mem_of_largest? hlargest), ?_⟩
    intro key hkey
    have hle := le_largest? hkey hlargest
    cases key with
    | nil => rfl
    | cons byte rest => simp at hle
  · rintro ⟨hne, hall⟩
    cases hlargest : largest? keys with
    | none => cases keys <;> simp_all [largest?]
    | some greatest => rw [hall greatest (mem_of_largest? hlargest)]

/-! ### The hull holds the ranges -/

/-- An equality leaves the hull open. -/
theorem ofRowKeyConditions_of_equality {rowKey : List Condition} {c : Condition} (hc : c ∈ rowKey)
    (h : c.operator = .eq) : ofRowKeyConditions rowKey = unbounded := by
  have hequality : rowKey.any (fun c => c.operator = .eq) = true :=
    List.any_eq_true.mpr ⟨c, hc, by simpa using h⟩
  rw [ofRowKeyConditions, if_pos hequality]

/-- Where the first of all elements has a property and every group after another has an element with
it, every group has one. -/
private theorem exists_mem_of_head? {α β : Type} {f : α → List β} {p : β → Bool} {xs : List α}
    (hpair : xs.Pairwise fun a b => f a ≠ [] ∧ ∃ y ∈ f b, p y = true)
    (hhead : ((xs.flatMap f).head?.any p) = true) {x : α} (hx : x ∈ xs) :
    ∃ y ∈ f x, p y = true := by
  cases xs with
  | nil => simp at hx
  | cons first rest =>
      have hfirst := (List.pairwise_cons.mp hpair).1
      rcases List.mem_cons.mp hx with rfl | hrest
      · cases hf : f x with
        | nil =>
            cases rest with
            | nil => simp [hf] at hhead
            | cons next rest => exact absurd hf (hfirst next (by simp)).1
        | cons y ys => exact ⟨y, by simp, by simpa [hf] using hhead⟩
      · exact (hfirst x hrest).2

variable {column : String} {type : ColumnType} {ranges : List ValueRange} {range : ValueRange}
  {key : Key}

private theorem conditions_ne_nil_of_low (h : range.low ≠ .unbounded) :
    range.conditions column type ≠ [] :=
  fun hnil => h (ValueRange.unbounded_of_conditions_eq_nil hnil).1

private theorem conditions_ne_nil_of_high (h : range.high ≠ .unbounded) :
    range.conditions column type ≠ [] :=
  fun hnil => h (ValueRange.unbounded_of_conditions_eq_nil hnil).2

private theorem exists_lower_of_head? (h : ValueRange.Ascending ranges)
    (hsingle : ∀ r ∈ ranges, r.singleValue? = none)
    (hhead : (ranges.flatMap (ValueRange.conditions column type)).head?.any
      (fun c => c.operator.isLowerBound) = true) (hrange : range ∈ ranges) :
    ∃ c ∈ range.conditions column type, c.operator.isLowerBound = true := by
  have hpair : ranges.Pairwise fun a b => a.conditions column type ≠ [] ∧
      ∃ c ∈ b.conditions column type, c.operator.isLowerBound = true :=
    h.imp_of_mem fun _ hb hab =>
      ⟨conditions_ne_nil_of_high hab.1, ValueRange.exists_lower_condition (hsingle _ hb) hab.2⟩
  exact exists_mem_of_head? hpair hhead hrange

/-- Read from the back, the last condition is the first and the ranges descend. -/
private theorem exists_upper_of_getLast? (h : ValueRange.Ascending ranges)
    (hsingle : ∀ r ∈ ranges, r.singleValue? = none)
    (hlast : (ranges.flatMap (ValueRange.conditions column type)).getLast?.any
      (fun c => c.operator.isUpperBound) = true) (hrange : range ∈ ranges) :
    ∃ c ∈ range.conditions column type, c.operator.isUpperBound = true := by
  have hpair : ranges.reverse.Pairwise fun b a => (b.conditions column type).reverse ≠ [] ∧
      ∃ c ∈ (a.conditions column type).reverse, c.operator.isUpperBound = true := by
    rw [List.pairwise_reverse]
    refine h.imp_of_mem fun ha _ hab => ⟨?_, ?_⟩
    · simpa using conditions_ne_nil_of_low hab.2
    · simpa using ValueRange.exists_upper_condition (hsingle _ ha) hab.1
  have hhead : ((ranges.reverse.flatMap fun r => (r.conditions column type).reverse).head?.any
      fun c => c.operator.isUpperBound) = true := by
    rw [← List.head?_reverse, List.reverse_flatMap] at hlast
    exact hlast
  simpa using exists_mem_of_head? hpair hhead (List.mem_reverse.mpr hrange)

/-- Where no condition is an equality, no range is a single value. -/
theorem singleValue?_eq_none_of_no_equality
    (h : ¬((ranges.flatMap (ValueRange.conditions column type)).any
      fun c => c.operator = .eq) = true)
    (hrange : range ∈ ranges) : range.singleValue? = none := by
  cases hvalue : range.singleValue? with
  | none => rfl
  | some value =>
      refine absurd ?_ h
      rw [List.any_eq_true]
      refine ⟨⟨column, .eq, value, type⟩, List.mem_flatMap.mpr ⟨range, hrange, ?_⟩, by simp⟩
      simp [ValueRange.conditions, hvalue]

/-- A key that meets the conditions of one of the ranges lies in the hull of all of them. -/
theorem mem_keyRange_of_admitsKey (h : ValueRange.Ascending ranges) (hrange : range ∈ ranges)
    (hadmits : ∀ c ∈ range.conditions column type, c.AdmitsKey key) :
    key ∈ (ofRowKeyConditions (ranges.flatMap (ValueRange.conditions column type))).keyRange := by
  rw [ofRowKeyConditions]
  split
  · exact KeyRange.mem_unbounded key
  · rename_i hequality
    have hsingle : ∀ r ∈ ranges, r.singleValue? = none :=
      fun r hr => singleValue?_eq_none_of_no_equality hequality hr
    have hmem : ∀ c ∈ range.conditions column type,
        c ∈ ranges.flatMap (ValueRange.conditions column type) :=
      fun c hc => List.mem_flatMap.mpr ⟨range, hrange, hc⟩
    rw [KeyRange.mem_iff]
    constructor
    · intro start hstart
      rw [keyRange, Option.mem_def, Option.ite_none_right_eq_some] at hstart
      obtain ⟨c, hc, hlower⟩ := exists_lower_of_head? h hsingle hstart.1 hrange
      have hfilter : c ∈ (ranges.flatMap (ValueRange.conditions column type)).filter
          fun c => c.operator.isLowerBound := List.mem_filter.mpr ⟨hmem c hc, hlower⟩
      have hstartKey := List.mem_map_of_mem (f := startKey) hfilter
      exact Std.le_trans (smallest?_le hstartKey hstart.2)
        ((Condition.admitsKey_iff_startKey_le hlower key).mp (hadmits c hc))
    · intro stop hstop
      rw [keyRange, Option.mem_def, Option.ite_none_right_eq_some] at hstop
      obtain ⟨c, hc, hupper⟩ := exists_upper_of_getLast? h hsingle hstop.1 hrange
      have hfilter : c ∈ (ranges.flatMap (ValueRange.conditions column type)).filter
          fun c => c.operator.isUpperBound := List.mem_filter.mpr ⟨hmem c hc, hupper⟩
      have hstopKey := List.mem_map_of_mem (f := stopKey) hfilter
      exact Std.lt_of_lt_of_le ((Condition.admitsKey_iff_lt_stopKey hupper key).mp (hadmits c hc))
        (le_largest? hstopKey hstop.2)

/-- The row-key filter of a constraint admits no row outside the hull. -/
theorem mem_keyRange_of_admitsRowKey {constraint : Constraint} (h : constraint.Ordered)
    {info : TableMeta} {row : Row}
    (hadmits : ScanFilter.admitsRowKey info constraint.conditions row = true) :
    row.key ∈ (ofConditions constraint.conditions info).keyRange := by
  rw [ofConditions]
  rw [ScanFilter.admitsRowKey] at hadmits
  split
  · rw [Constraint.conditionsOn_conditions h] at hadmits ⊢
    cases hdomain : constraint.domain? info.rowKeyColumn with
    | none => exact KeyRange.mem_unbounded row.key
    | some domain =>
        have hascending := Constraint.ascending_of_domain? h hdomain
        rw [hdomain] at hadmits
        simp only [Option.map_some, Option.getD_some, Domain.conditions] at hadmits ⊢
        split at hadmits
        · exact KeyRange.mem_unbounded row.key
        · rename_i ranges hranges
          cases ranges with
          | nil => exact KeyRange.mem_unbounded row.key
          | cons first rest =>
              obtain ⟨range, hrange, hall⟩ :=
                (ScanFilter.rowKeyGroup_accepts_iff (hascending _ hranges) (by simp)).mp hadmits
              exact mem_keyRange_of_admitsKey (hascending _ hranges) hrange hall
  · exact KeyRange.mem_unbounded row.key

/-! ### Exact hulls -/

private theorem mem_hull_singleton_iff {only : Condition} (h : only.operator ≠ .eq) (key : Key) :
    key ∈ (ofRowKeyConditions [only]).keyRange ↔ only.AdmitsKey key := by
  have hside : only.operator.isLowerBound = true ∧ only.operator.isUpperBound = false ∨
      only.operator.isLowerBound = false ∧ only.operator.isUpperBound = true := by
    cases hoperator : only.operator <;> simp_all [Operator.isLowerBound, Operator.isUpperBound]
  rcases hside with ⟨hlower, hupper⟩ | ⟨hlower, hupper⟩
  · rw [Condition.admitsKey_iff_startKey_le hlower]
    simp [ofRowKeyConditions, h, hlower, hupper, smallest?, KeyRange.mem_iff, keyRange]
  · rw [Condition.admitsKey_iff_lt_stopKey hupper]
    simp [ofRowKeyConditions, h, hlower, hupper, largest?, KeyRange.mem_iff, keyRange]

private theorem mem_hull_pair_iff {low high : Condition} (hlow : low.operator.isLowerBound = true)
    (hhigh : high.operator.isUpperBound = true) (key : Key) :
    key ∈ (ofRowKeyConditions [low, high]).keyRange ↔ low.AdmitsKey key ∧ high.AdmitsKey key := by
  have hlow' : low.operator ≠ .eq ∧ low.operator.isUpperBound = false := by
    cases hoperator : low.operator <;> simp_all [Operator.isLowerBound, Operator.isUpperBound]
  have hhigh' : high.operator ≠ .eq ∧ high.operator.isLowerBound = false := by
    cases hoperator : high.operator <;> simp_all [Operator.isLowerBound, Operator.isUpperBound]
  rw [Condition.admitsKey_iff_startKey_le hlow, Condition.admitsKey_iff_lt_stopKey hhigh]
  simp [ofRowKeyConditions, hlow, hlow', hhigh, hhigh', smallest?, largest?, KeyRange.mem_iff,
    keyRange]

/-- An exact hull holds the keys that the row-key filter admits and no others. -/
theorem mem_keyRange_iff_admitsRowKey {conditions : List Condition} {info : TableMeta}
    (h : isExact conditions info = true) (row : Row) :
    row.key ∈ (ofConditions conditions info).keyRange ↔
      ScanFilter.admitsRowKey info conditions row = true := by
  rw [isExact] at h
  rw [ofConditions, ScanFilter.admitsRowKey]
  split at h
  · rename_i hnil
    rw [hnil]
    split <;> exact iff_of_true (KeyRange.mem_unbounded row.key) rfl
  · rename_i only honly
    rw [honly]
    simp only [Bool.and_eq_true, decide_eq_true_eq] at h
    rw [if_pos h.1, mem_hull_singleton_iff h.2, ScanFilter.rowKeyGroup_singleton]
    exact Iff.rfl
  · rename_i low high hpair
    rw [hpair]
    simp only [Bool.and_eq_true, decide_eq_true_eq] at h
    rw [if_pos h.1.1, mem_hull_pair_iff h.1.2 h.2, ScanFilter.rowKeyGroup_pair h.1.2 h.2]
    simp
  · simp at h

end KeyBounds

end KeyScan
