import KeyScan.Planning.Chunks
import KeyScan.Proofs.Planning.Expansion

/-! # Prefixes, chunks and buckets in machine words

Prefixes, chunks and buckets are made here by steps on machine words. With a cap on the prefixes none
of these steps is out of reach, so the outcome is the same. -/

namespace KeyScan

namespace Planning

/-! ### Prefixes -/

def extendAll? (cap : Nat) (separator : String) :
    List String → List (List String) → Option (Except PrefixOverflow (List String))
  | prefixes, [] => some (.ok prefixes)
  | prefixes, texts :: rest => do
      let found ← Word.length? prefixes
      let named ← Word.length? texts
      if cap < Word.saturatingMul found named then return .error ⟨cap⟩
      else extendAll? cap separator (extend separator prefixes texts) rest

def combine? (cap : Nat) (separator : String) :
    List (List String) → Option (Except PrefixOverflow (List String))
  | [] => some (.ok [])
  | texts :: rest => do
      let named ← Word.length? texts
      if cap < named then return .error ⟨cap⟩ else extendAll? cap separator texts rest

def Prefixes.expand? (format : RowKeyFormat) (cap : Nat) (conditions : List Condition) :
    Option (Except PrefixOverflow Prefixes) := do
  let columns := leadingTexts conditions format.components
  let combined ← combine? cap format.separator columns
  let depth ← Word.length? columns
  let whole ← Word.length? format.components
  return combined.map fun texts => {
    texts := texts.eraseDups
    depth := depth
    complete := 0 < depth && depth = whole }

/-- A cap below the last word stops the prefixes before their number leaves the words. -/
theorem extendAll?_eq {cap : Nat} {separator : String} {starts : List String}
    {columns : List (List String)} (hne : ∀ column ∈ columns, column ≠ [])
    (hcolumns : ∀ column ∈ columns, column.length < UInt64.size)
    (hstarts : starts.length < UInt64.size)
    (hfits : cap < Word.last ∨ starts.length * (columns.map List.length).prod < UInt64.size) :
    extendAll? cap separator starts columns = some (extendAll cap separator starts columns) := by
  induction columns generalizing starts with
  | nil => rfl
  | cons column rest ih =>
      obtain ⟨_, hne⟩ := List.forall_mem_cons.mp hne
      obtain ⟨hcolumn, hcolumns⟩ := List.forall_mem_cons.mp hcolumns
      simp only [extendAll?, extendAll, Word.length?_eq hstarts, Word.length?_eq hcolumn,
        Option.bind_eq_bind, Option.bind_some]
      split
      · rfl
      · rename_i hwithin
        rw [List.map_cons, List.prod_cons, ← Nat.mul_assoc] at hfits
        have hnext : starts.length * column.length < UInt64.size :=
          (Word.mul_le_and_lt_of_saturatingMul_le (Nat.not_lt.mp hwithin)
            (hfits.imp_right
              (Nat.lt_of_le_of_lt (Nat.le_mul_of_pos_right _ (prod_length_pos hne))))).2
        exact ih hne hcolumns (by rwa [length_extend]) (by rwa [length_extend])

theorem combine?_eq {cap : Nat} {separator : String} {columns : List (List String)}
    (hne : ∀ column ∈ columns, column ≠ [])
    (hcolumns : ∀ column ∈ columns, column.length < UInt64.size)
    (hfits : cap < Word.last ∨ (columns.map List.length).prod < UInt64.size) :
    combine? cap separator columns = some (combine cap separator columns) := by
  cases columns with
  | nil => rfl
  | cons column rest =>
      obtain ⟨_, hne⟩ := List.forall_mem_cons.mp hne
      obtain ⟨hcolumn, hcolumns⟩ := List.forall_mem_cons.mp hcolumns
      rw [List.map_cons, List.prod_cons] at hfits
      simp only [combine?, combine, Word.length?_eq hcolumn, Option.bind_eq_bind, Option.bind_some]
      split
      · rfl
      · exact extendAll?_eq hne hcolumns hcolumn hfits

/-- There are no more texts of a component than conditions, and no more leading components than
components. -/
theorem Prefixes.expand?_eq {format : RowKeyFormat} {cap : Nat} {conditions : List Condition}
    (hconditions : conditions.length < UInt64.size)
    (hcomponents : format.components.length < UInt64.size)
    (hfits : cap < Word.last ∨
      ((leadingTexts conditions format.components).map List.length).prod < UInt64.size) :
    expand? format cap conditions = some (expand format cap conditions) := by
  have hdepth : (leadingTexts conditions format.components).length < UInt64.size :=
    Nat.lt_of_le_of_lt (length_leadingTexts_le _ _) hcomponents
  rw [expand?, expand, combine?_eq (fun _ => ne_nil_of_mem_leadingTexts)
    (fun _ htexts => Nat.lt_of_le_of_lt (length_le_of_mem_leadingTexts htexts) hconditions) hfits]
  simp only [Word.length?_eq hdepth, Word.length?_eq hcomponents, Option.bind_eq_bind,
    Option.bind_some]
  cases combine cap format.separator (leadingTexts conditions format.components) <;> rfl

/-! ### Chunks -/

def chunkSize? (config : PlannerConfig) (total : Nat) : Option Nat := do
  let least := max config.minChunkSize 1
  let most := max config.maxBatches 1
  let needed ← Word.div? total least
  if most < needed then Word.div? total most else some least

def chunkCount? (config : PlannerConfig) (total : Nat) : Option Nat := do
  let size ← chunkSize? config total
  let needed ← Word.divCeil? total size
  Word.clamp? needed 1 (max config.maxBatches 1)

def pieces? {α : Type} (size : Nat) : Nat → Nat → List α → Option (List (List α))
  | 0, _, _ => some []
  | count + 1, extra, xs => do
      let taken ← Word.add? size (if 0 < extra then 1 else 0)
      let rest ← pieces? size count (extra - 1) (xs.drop taken)
      return xs.take taken :: rest

def chunks? {α : Type} (config : PlannerConfig) (keys : List α) : Option (List (List α)) :=
  if keys.isEmpty then some []
  else do
    let total ← Word.length? keys
    let count ← chunkCount? config total
    let size ← Word.div? total count
    let extra ← Word.mod? total count
    pieces? size count extra keys

theorem chunkSize?_eq (config : PlannerConfig) (total : Nat) :
    chunkSize? config total = some (chunkSize config total) := by
  have hleast : max config.minChunkSize 1 ≠ 0 := by omega
  have hmost : max config.maxBatches 1 ≠ 0 := by omega
  simp only [chunkSize?, chunkSize, Word.div?_eq hleast, Word.div?_eq hmost, Option.bind_eq_bind,
    Option.bind_some]
  split <;> rfl

theorem chunkSize_ne_zero (config : PlannerConfig) (total : Nat) : chunkSize config total ≠ 0 := by
  simp only [chunkSize]
  split
  · rename_i hmany
    -- The larger quotient is past the number of chunks, so there is a key for each of them.
    have hle : max config.maxBatches 1 ≤ total :=
      Nat.le_trans (Nat.le_of_lt hmany) (Nat.div_le_self _ _)
    exact Nat.ne_of_gt (Nat.div_pos hle (by omega))
  · omega

theorem chunkCount?_eq {config : PlannerConfig} {total : Nat} (h : total < UInt64.size) :
    chunkCount? config total = some (chunkCount config total) := by
  simp only [chunkCount?, chunkSize?_eq, Word.divCeil?_eq h (chunkSize_ne_zero config total),
    Option.bind_eq_bind, Option.bind_some]
  exact Word.clamp?_eq (by omega)

theorem pieces?_eq {α : Type} {size count extra : Nat} {xs : List α}
    (h : extra ≠ 0 → size + 1 < UInt64.size) (hsize : size < UInt64.size) :
    pieces? size count extra xs = some (pieces size count extra xs) := by
  induction count generalizing extra xs with
  | zero => rfl
  | succ count ih =>
      have htaken : Word.add? size (if 0 < extra then 1 else 0) =
          some (if 0 < extra then size + 1 else size) := by
        split
        · exact Word.add?_eq (h (by omega))
        · exact Word.add?_eq hsize
      simp only [pieces?, pieces, htaken, Option.bind_eq_bind, Option.bind_some]
      rw [ih fun hextra => h (by omega)]
      rfl

theorem chunks?_eq {α : Type} (config : PlannerConfig) {keys : List α}
    (h : keys.length < UInt64.size) : chunks? config keys = some (chunks config keys) := by
  have hcount : chunkCount config keys.length ≠ 0 := by
    simp only [chunkCount]
    omega
  rw [chunks?, chunks]
  split
  · rfl
  · simp only [Word.length?_eq h, chunkCount?_eq h, Word.div?_eq hcount, Word.mod?_eq hcount,
      Option.bind_eq_bind, Option.bind_some]
    apply pieces?_eq
    · -- A single chunk leaves no key over, and more of them halve the number of keys at least.
      intro hextra
      have hrest := Nat.mod_lt keys.length (Nat.pos_of_ne_zero hcount)
      have hhalf := Word.two_mul_div_add_mod_le keys.length
        (show 2 ≤ chunkCount config keys.length by omega)
      omega
    · exact Nat.lt_of_le_of_lt (Nat.div_le_self _ _) h

end Planning

/-! ### Buckets -/

namespace CharRange

def size? (range : CharRange) : Option Nat :=
  Word.add? (range.last.toNat - range.first.toNat) 1

def totalSize? : List CharRange → Option Nat
  | [] => some 0
  | range :: rest => do
      Word.add? (← range.size?) (← totalSize? rest)

theorem size?_eq (range : CharRange) : range.size? = some range.size := by
  have hlast := range.last.toNat_lt
  apply Word.add?_eq
  change _ < 18446744073709551616
  omega

theorem totalSize?_eq {ranges : List CharRange} (h : totalSize ranges < UInt64.size) :
    totalSize? ranges = some (totalSize ranges) := by
  induction ranges with
  | nil => rfl
  | cons range rest ih =>
      rw [totalSize] at h ⊢
      simp only [totalSize?, size?_eq, ih (by omega), Option.bind_eq_bind, Option.bind_some]
      exact Word.add?_eq h

end CharRange

theorem Double.roundHalfEven_le {num den : Nat} (h : den ≠ 0) : roundHalfEven num den ≤ num := by
  rw [roundHalfEven]
  by_cases hone : den = 1
  · subst hone
    simp only [Nat.div_one]
    split
    · exact Nat.le_refl num
    · split <;> omega
  · have hhalf := Word.two_mul_div_add_mod_le num (show 2 ≤ den by omega)
    split
    · omega
    · split <;> omega

namespace Buckets

/-- Cuts a range. The ends are checked first, as it is they that the recursion goes by. -/
def cut? (step : Nat) (positive : 0 < step) (first last : Nat) : Option (List CharRange) := do
  let past ← Word.add? first (← Word.mul? 2 step)
  let _ ← Word.sub? past 1
  if last < first + 2 * step - 1 then some [between first last]
  else do
    let next ← Word.add? first step
    let top ← Word.sub? next 1
    let rest ← cut? step positive (first + step) last
    return between first top :: rest
termination_by last + 1 - first
decreasing_by omega

def partition? (ranges : List CharRange) (count : Nat) :
    Option (Except Error (List CharRange)) :=
  if count = 0 then some (.error (.invalidConfig "bucket count must be > 0"))
  else do
    let total ← CharRange.totalSize? ranges
    let buckets ← ranges.mapM fun range =>
      cut? (max 1 (Double.roundHalfEven total count)) (by omega) range.first.toNat
        range.last.toNat
    return .ok buckets.flatten

/-- With sizes of no more than all bytes, cutting stays far below the last word. -/
theorem cut?_eq {step first last : Nat} (positive : 0 < step) (hstep : step ≤ 256)
    (hfirst : first < 256) (hlast : last < 256) :
    cut? step positive first last = some (cut step positive first last) := by
  have hsize : UInt64.size = 18446744073709551616 := rfl
  fun_induction cut step positive first last with
  | case1 first hshort =>
      rw [cut?, Word.mul?_eq (by omega)]
      simp only [Option.bind_eq_bind, Option.bind_some]
      rw [Word.add?_eq (by omega), Option.bind_some, Word.sub?_eq (by omega), Option.bind_some,
        if_pos hshort]
  | case2 first hlong ih =>
      rw [cut?, Word.mul?_eq (by omega)]
      simp only [Option.bind_eq_bind, Option.bind_some]
      rw [Word.add?_eq (by omega), Option.bind_some, Word.sub?_eq (by omega), Option.bind_some,
        if_neg hlong, Word.add?_eq (by omega), Option.bind_some, Word.sub?_eq (by omega),
        Option.bind_some, ih (by omega)]
      rfl

theorem partition?_eq {ranges : List CharRange} (h : CharRange.totalSize ranges ≤ 256)
    (count : Nat) : partition? ranges count = some (partition ranges count) := by
  rw [partition?, partition]
  split
  · rfl
  · rename_i hcount
    have htotal : CharRange.totalSize ranges < UInt64.size := by
      change _ < 18446744073709551616
      omega
    have hstep : step ranges count ≤ 256 := by
      have hround : Double.roundHalfEven (CharRange.totalSize ranges) count ≤
          CharRange.totalSize ranges := Double.roundHalfEven_le hcount
      rw [step]
      omega
    simp only [CharRange.totalSize?_eq htotal, Option.bind_eq_bind, Option.bind_some]
    have hcut : ∀ range ∈ ranges,
        cut? (step ranges count) (by unfold step; omega) range.first.toNat range.last.toNat =
          some (cut (step ranges count) (by unfold step; omega) range.first.toNat
            range.last.toNat) :=
      fun range _ => cut?_eq _ hstep range.first.toNat_lt range.last.toNat_lt
    exact congrArg (Option.bind · _) (mapM_eq_some hcut)

end Buckets

end KeyScan
