import KeyScan.Planning.Requests
import KeyScan.Proofs.Wire.Request

/-! # Work sent to workers

A split and the request that reads it are sent as JSON text. What arrives is what was sent, but for
requests whose filter nests past what is read; none of those is built for a split. -/

namespace KeyScan

/-! ### Requests that are built -/

namespace ScanFilter

theorem levelsOfAll_le_iff {filters : List ScanFilter} {n : Nat} :
    levelsOfAll filters ≤ n ↔ ∀ filter ∈ filters, filter.levels ≤ n := by
  induction filters with
  | nil => simp [levelsOfAll]
  | cons filter rest ih => rw [levelsOfAll, Nat.max_le, ih, List.forall_mem_cons]

theorem levels_any?_le {filters : List ScanFilter} {n : Nat}
    (h : ∀ filter ∈ filters, filter.levels ≤ n) :
    ∀ filter ∈ any? filters, filter.levels ≤ n + 2 := by
  intro filter hfilter
  match filters with
  | [] => simp [any?] at hfilter
  | [only] =>
      obtain rfl : only = filter := by simpa [any?] using hfilter
      exact Nat.le_trans (h only List.mem_cons_self) (Nat.le_add_right n 2)
  | first :: second :: rest =>
      obtain rfl : anyOf (first :: second :: rest) = filter := by simpa [any?] using hfilter
      exact Nat.add_le_add_right (levelsOfAll_le_iff.mpr h) 2

/-- An interval is a bound or the two of them. -/
theorem levels_intervals_le {low : Option ScanFilter} (hlow : ∀ filter ∈ low, filter.levels ≤ 3)
    (conditions : List Condition) : ∀ filter ∈ intervals low conditions, filter.levels ≤ 5 := by
  have hopen : ∀ filter ∈ low.toList, filter.levels ≤ 5 := by
    intro filter hfilter
    exact Nat.le_trans (hlow filter (Option.mem_toList.mp hfilter)) (by decide)
  induction conditions generalizing low with
  | nil => exact hopen
  | cons c rest ih =>
      have hleaf : (ofRowKeyCondition c).levels = 3 := rfl
      have hclosed : ∀ filter ∈ ofRowKeyCondition c :: intervals none rest, filter.levels ≤ 5 :=
        List.forall_mem_cons.mpr ⟨by omega, ih (by simp) (by simp)⟩
      simp only [intervals]
      split
      · cases low with
        | none => exact hclosed
        | some start =>
            have hstart := hlow start rfl
            refine List.forall_mem_cons.mpr ⟨?_, ih (by simp) (by simp)⟩
            simp only [levels, levelsOfAll]
            omega
      · split
        · exact List.forall_mem_append.mpr ⟨hopen, ih (by simp [hleaf]) (by simp [hleaf])⟩
        · exact List.forall_mem_append.mpr ⟨hopen, hclosed⟩

theorem levels_columnGroup_le {info : TableMeta} {name : String} {conditions : List Condition} :
    ∀ group ∈ columnGroup info name conditions, group.levels ≤ 5 := by
  intro group hgroup
  obtain ⟨family, _, hgroup⟩ := Option.bind_eq_some_iff.mp hgroup
  obtain ⟨leaves, hleaves, hgroup⟩ := Option.bind_eq_some_iff.mp hgroup
  refine levels_any?_le ?_ group hgroup
  intro leaf hleaf
  obtain ⟨c, _, hc⟩ := mem_of_mapM hleaves hleaf
  obtain ⟨value, _, hvalue⟩ := Option.bind_eq_some_iff.mp hc
  obtain rfl := Option.some.inj hvalue
  exact Nat.le_refl 3

/-- Conditions are compiled into a filter of few levels, however many there are. -/
theorem levels_compile_le {info : TableMeta} {conditions : List Condition}
    {projection : List String} {rowKeyEncoded : Bool} :
    ∀ filter ∈ compile info conditions projection rowKeyEncoded, filter.levels ≤ 9 := by
  intro filter hfilter
  have hkey : ∀ group ∈ (if rowKeyEncoded then none
      else rowKeyGroup (conditionsOn info.rowKeyColumn conditions)), group.levels ≤ 7 := by
    intro group hgroup
    split at hgroup
    · simp at hgroup
    · exact levels_any?_le (levels_intervals_le (by simp) _) group hgroup
  simp only [compile] at hfilter
  split at hfilter
  · split at hfilter
    · rename_i group hgroup
      obtain rfl := Option.some.inj hfilter
      have hlevels := hkey group hgroup
      simp only [levels, levelsOfAll]
      omega
    · obtain rfl := Option.some.inj hfilter
      decide
  · split at hfilter
    · simp at hfilter
    · obtain rfl := Option.some.inj hfilter
      refine Nat.add_le_add_right (levelsOfAll_le_iff.mpr ?_) 2
      refine List.forall_mem_append.mpr ⟨fun group hgroup => ?_, fun group hgroup => ?_⟩
      · exact hkey group (Option.mem_toList.mp hgroup)
      · obtain ⟨entry, _, hentry⟩ := List.mem_filterMap.mp hgroup
        exact Nat.le_trans (levels_columnGroup_le group hentry) (by decide)

end ScanFilter

/-- The request that is built for a split arrives at the reader of the split. -/
theorem ofText?_render_of_buildRequest {split : Split} {projection : List String}
    {info : TableMeta} {scan : ScanConfig} {request : ScanRequest}
    (h : Planning.buildRequest split projection info scan = .ok request) :
    ScanRequest.ofText? request.toJson.render = some request := by
  have hlevels : request.levels ≤ 10 := by
    rw [Planning.buildRequest] at h
    cases hcolumns : (projection.filter fun name => name ≠ split.rowKeyColumn).mapM
        (Planning.projectedCell info) with
    | error error =>
        rw [hcolumns] at h
        cases h
    | ok columns =>
        rw [hcolumns] at h
        obtain rfl := Except.ok.inj h
        rw [ScanRequest.levels]
        cases hfilter : ScanFilter.compile info split.conditions projection
            (Planning.isRowKeyEncoded split info) with
        | none => simp
        | some filter => exact Nat.add_le_add_right (ScanFilter.levels_compile_le filter hfilter) 1
  rw [ScanRequest.ofText?_render, if_pos (Nat.le_trans hlevels (by decide))]

/-! ### Splits and requests -/

/-- No condition compares with a double. -/
def Split.IsDoubleFree (split : Split) : Prop :=
  ∀ c ∈ split.conditions, c.value.isDouble = false

instance (split : Split) : Decidable split.IsDoubleFree :=
  inferInstanceAs (Decidable (∀ _ ∈ _, _))

variable {split other : Split}

theorem Split.ofText?_render (h : split.IsDoubleFree) :
    ofText? split.toJson.render = some split := by
  have hnesting : nesting split.toJson ≤ Json.nestingLimit :=
    Nat.le_trans split.nesting_toJson_le (by decide)
  rw [ofText?, Json.parse?_render (exact_toJson h), Option.bind_eq_bind, Option.bind_some,
    if_pos hnesting, ofJson?_toJson h]

theorem Split.eq_of_render_eq (h : split.IsDoubleFree) (hother : other.IsDoubleFree)
    (heq : split.toJson.render = other.toJson.render) : split = other := by
  have hread := Split.ofText?_render h
  rw [heq, Split.ofText?_render hother] at hread
  exact (Option.some.inj hread).symm

/-- Whether or not a request gets through as text, that text is the text of no other. -/
theorem ScanRequest.eq_of_render_eq {request other : ScanRequest}
    (heq : request.toJson.render = other.toJson.render) : request = other := by
  have hjson := Json.eq_of_render_eq request.exact_toJson other.exact_toJson heq
  have hread := request.ofJson?_toJson
  rw [hjson, other.ofJson?_toJson] at hread
  exact (Option.some.inj hread).symm

theorem Split.render_ne_render (h : split.IsDoubleFree) (request : ScanRequest) :
    split.toJson.render ≠ request.toJson.render := by
  intro heq
  have hjson := Json.eq_of_render_eq (exact_toJson h) request.exact_toJson heq
  simp [toJson, ScanRequest.toJson] at hjson

/-- Work that is sent arrives unchanged: a split without doubles in its conditions as text, a request
as JSON whatever its filter, and as text if this nests no more deeply than is read. No two of them
are sent as the same text. -/
theorem sent_work_arrives (hsplit : split.IsDoubleFree) (request : ScanRequest) :
    Split.ofJson? split.toJson = some split ∧
      Split.ofText? split.toJson.render = some split ∧
      ScanRequest.ofJson? request.toJson = some request ∧
      ScanRequest.ofText? request.toJson.render =
        (if request.levels ≤ Json.nestingLimit then some request else none) ∧
      (∀ other : Split, other.IsDoubleFree →
        split.toJson.render = other.toJson.render → split = other) ∧
      (∀ other : ScanRequest, request.toJson.render = other.toJson.render → request = other) ∧
      split.toJson.render ≠ request.toJson.render :=
  ⟨Split.ofJson?_toJson hsplit, Split.ofText?_render hsplit, request.ofJson?_toJson,
    request.ofText?_render, fun _ hother => Split.eq_of_render_eq hsplit hother,
    fun _ => ScanRequest.eq_of_render_eq, Split.render_ne_render hsplit request⟩

/-- Keys that are no text or empty, for a reader that a host is named for. -/
def strayKeys : Split where
  schema := "web"
  table := "visits"
  rowKeyColumn := "visit"
  hostHints := [⟨"north", 9090⟩]
  conditions := [⟨"size", .ge, .integer (-8), .integer⟩, ⟨"country", .eq, .varchar "c\"z\n", .varchar⟩]
  unit := .batchGet [[255, 0], []]

/-- First cells from the empty key on, of rows that one of two filters lets through. -/
def strayCells : ScanRequest where
  columns := [⟨"d", "size"⟩]
  filter := some (.allOf [.firstKeyOnly, .anyOf [.rowKey ⟨.less, [255]⟩, .anyOf []]])
  range := ⟨some [], none⟩

theorem sent_work_arrives_stray :
    strayKeys.IsDoubleFree ∧ Split.ofText? strayKeys.toJson.render = some strayKeys ∧
      ScanRequest.ofText? strayCells.toJson.render = some strayCells := by
  have hsplit : strayKeys.IsDoubleFree := by decide
  obtain ⟨_, harrives, _, hrequest, _⟩ := sent_work_arrives hsplit strayCells
  exact ⟨hsplit, harrives, hrequest⟩

/-- A filter inside so many others. -/
def ScanFilter.wrapped : Nat → ScanFilter
  | 0 => firstKeyOnly
  | count + 1 => anyOf [wrapped count]

theorem ScanFilter.levels_wrapped (count : Nat) : (wrapped count).levels = 2 * count + 1 := by
  induction count with
  | zero => rfl
  | succ count ih =>
      rw [wrapped, levels, levelsOfAll, levelsOfAll, ih]
      omega

/-- A filter inside sixty-three others is refused where it arrives, inside sixty-two it is not. -/
theorem sent_work_refused :
    ScanRequest.ofText? (ScanRequest.toJson { filter := some (.wrapped 63) }).render = none ∧
      ScanRequest.ofText? (ScanRequest.toJson { filter := some (.wrapped 62) }).render =
        some { filter := some (.wrapped 62) } := by
  simp only [ScanRequest.ofText?_render, ScanRequest.levels, Option.map_some, Option.getD_some,
    ScanFilter.levels_wrapped]
  exact ⟨rfl, rfl⟩

end KeyScan
