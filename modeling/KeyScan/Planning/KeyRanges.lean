import KeyScan.Config.Basic
import KeyScan.Planning.KeyBounds
import KeyScan.Planning.Prefixes
import KeyScan.Salt.Buckets

/-!
The row-key ranges of a scan. Prefixes give a range each, on a salted table one for every salt byte
unless those are too many; a salted table without prefixes is scanned in buckets of salt bytes, and
any other in one range. All of them are narrowed to the hull of the row-key conditions.
-/

namespace KeyScan.Planning

/-- The prefixes to plan with: none without conditions or components, or past the cap. -/
def usablePrefixes (conditions : List Condition) (info : TableMeta) (config : PlannerConfig) :
    Prefixes :=
  if conditions = [] || info.rowKeyFormat.components = [] then {}
  else
    match Prefixes.expand info.rowKeyFormat config.maxPrefixExpansion conditions with
    | .ok prefixes => prefixes
    | .error _ => {}

/-- The keys of a prefix. A partial one goes on with the separator; a complete one is a key itself
and may be extended after a separator. -/
def prefixRange (complete : Bool) (separator body : Key) : KeyRange :=
  if complete then ⟨some body, (body ++ separator).prefixSuccessor⟩
  else KeyRange.prefixed (body ++ separator)

def prefixRanges (prefixes : Prefixes) (separator : Key) : List KeyRange :=
  prefixes.texts.map fun text => prefixRange prefixes.complete separator (Key.ofText text)

/-- Every prefix after every salt byte. -/
def saltedPrefixRanges (salt : Salt) (prefixes : Prefixes) (separator : Key) : List KeyRange :=
  prefixes.texts.flatMap fun text =>
    salt.bytes.map fun byte =>
      prefixRange prefixes.complete separator (byte :: separator ++ Key.ofText text)

/-- The buckets of the salt alphabet, of which only those within the bounds are kept. -/
def saltBucketRanges (salt : Salt) (bounds : KeyBounds) (config : PlannerConfig) :
    Except Error (List KeyRange) := do
  let buckets ← Buckets.partition salt.ranges config.saltBucketCount
  let kept :=
    if bounds.isUnbounded then buckets
    else
      match bounds.firstByteWindow with
      | some window => Buckets.clip buckets window
      | none => []
  return kept.map Buckets.keyRange

/-- The ranges before they are narrowed. -/
def outerRanges (prefixes : Prefixes) (bounds : KeyBounds) (info : TableMeta)
    (config : PlannerConfig) : Except Error (List KeyRange) :=
  let separator := Key.ofText info.rowKeyFormat.separator
  match info.salt with
  | none =>
      if prefixes.texts = [] then .ok [.unbounded] else .ok (prefixRanges prefixes separator)
  | some salt =>
      if prefixes.texts = [] ||
          config.maxSplitCount < Word.saturatingMul salt.size prefixes.texts.length then
        saltBucketRanges salt bounds config
      else .ok (saltedPrefixRanges salt prefixes separator)

/-- Plans the row-key ranges of a scan. Ranges that the hull leaves no key are dropped. -/
def planKeyRanges (conditions : List Condition) (info : TableMeta) (config : PlannerConfig) :
    Except Error (List KeyRange) := do
  let bounds := KeyBounds.ofConditions conditions info
  let ranges ← outerRanges (usablePrefixes conditions info config) bounds info config
  return ranges.filterMap fun range => range.intersect bounds.keyRange

end KeyScan.Planning
