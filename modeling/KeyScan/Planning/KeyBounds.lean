import KeyScan.Condition
import KeyScan.Key.Range
import KeyScan.Salt.CharRange
import KeyScan.Table.Meta

/-!
The hull of the row-key conditions: the smallest range of keys around the rows they admit, where
they bound it at all.
-/

namespace KeyScan

/-- A lower end that belongs to the hull and an upper end that does not. -/
structure KeyBounds where
  lower : Option Key
  upper : Option Key
  deriving DecidableEq, Repr

namespace KeyBounds

def unbounded : KeyBounds := ⟨none, none⟩

def isUnbounded (bounds : KeyBounds) : Bool :=
  bounds.lower.isNone && bounds.upper.isNone

def keyRange (bounds : KeyBounds) : KeyRange :=
  ⟨bounds.lower, bounds.upper⟩

/-- The first bytes of the keys within the bounds; `none` when the bounds leave no key. -/
def firstByteWindow (bounds : KeyBounds) : Option CharRange :=
  let first := (bounds.lower.bind List.head?).getD 0
  let last :=
    match bounds.upper with
    | none => some 255
    | some key => key.head?
  match last with
  | some last => if first ≤ last then some ⟨first, last⟩ else none
  | none => none

/-- The first key that a lower bound admits. -/
def startKey (c : Condition) : Key :=
  if c.operator = .gt then c.value.key.successor else c.value.key

/-- The first key past those that an upper bound admits. -/
def stopKey (c : Condition) : Key :=
  if c.operator = .le then c.value.key.successor else c.value.key

def smallest? : List Key → Option Key
  | [] => none
  | key :: rest => some (rest.foldl Key.smaller key)

def largest? : List Key → Option Key
  | [] => none
  | key :: rest => some (rest.foldl Key.larger key)

/-- The hull of row-key conditions that come range by range in ascending order: if the first
condition bounds from below, so does the least of the lower bounds, and likewise above. Equalities
leave the hull open. -/
def ofRowKeyConditions (rowKey : List Condition) : KeyBounds :=
  if rowKey.any fun c => c.operator = .eq then unbounded
  else
    { lower :=
        if rowKey.head?.any fun c => c.operator.isLowerBound then
          smallest? ((rowKey.filter fun c => c.operator.isLowerBound).map startKey)
        else none
      upper :=
        if rowKey.getLast?.any fun c => c.operator.isUpperBound then
          largest? ((rowKey.filter fun c => c.operator.isUpperBound).map stopKey)
        else none }

/-- The hull of the conditions on the row key of a table. Keys that are not texts are not ordered
like their values, so they are not bounded. -/
def ofConditions (conditions : List Condition) (info : TableMeta) : KeyBounds :=
  if info.rowKeyType = .varchar then ofRowKeyConditions (conditionsOn info.rowKeyColumn conditions)
  else unbounded

/-- The hull admits exactly the keys that the conditions admit: there are none on the row key, or
they are one interval of a text key. -/
def isExact (conditions : List Condition) (info : TableMeta) : Bool :=
  match conditionsOn info.rowKeyColumn conditions with
  | [] => true
  | [only] => info.rowKeyType = .varchar && only.operator ≠ .eq
  | [low, high] =>
      info.rowKeyType = .varchar && low.operator.isLowerBound && high.operator.isUpperBound
  | _ => false

end KeyBounds

end KeyScan
