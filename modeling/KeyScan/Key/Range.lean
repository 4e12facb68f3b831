import KeyScan.Key.Basic
import KeyScan.Text.Escaped
import KeyScan.Text.Utf8

/-!
Ranges of row keys: half-open intervals whose ends may be left open. `intersect` is the
overlap of two of them, and `prefixed` holds the keys with a common prefix.
-/

namespace KeyScan

/-- The keys from `start` on and before `stop`; an end that is `none` does not bound. -/
structure KeyRange where
  start : Option Key
  stop : Option Key
  deriving DecidableEq, Repr

namespace KeyRange

/-- The whole key space. -/
def unbounded : KeyRange := ⟨none, none⟩

/-- The keys that start with the given bytes. -/
def prefixed (key : Key) : KeyRange := ⟨some key, key.prefixSuccessor⟩

def isUnbounded (range : KeyRange) : Bool :=
  range.start.isNone && range.stop.isNone

/-- The key lies in the range. -/
def Contains (range : KeyRange) (key : Key) : Prop :=
  (∀ start ∈ range.start, start ≤ key) ∧ ∀ stop ∈ range.stop, key < stop

instance : Membership Key KeyRange := ⟨Contains⟩

instance (range : KeyRange) (key : Key) : Decidable (key ∈ range) :=
  inferInstanceAs (Decidable (_ ∧ _))

/-- Of two ends the one that `choose` takes; an end that does not bound gives way. -/
def tighter (choose : Key → Key → Key) : Option Key → Option Key → Option Key
  | some a, some b => some (choose a b)
  | some a, none => some a
  | none, b => b

/-- Both ends are there and leave no key between them. -/
def isCrossed : KeyRange → Bool
  | ⟨some start, some stop⟩ => stop ≤ start
  | _ => false

/-- The overlap, `none` when the ranges have no key in common by their ends. -/
def intersect (a b : KeyRange) : Option KeyRange :=
  let overlap : KeyRange := ⟨tighter Key.larger a.start b.start, tighter Key.smaller a.stop b.stop⟩
  if overlap.isCrossed then none else some overlap

/-- An end as readable text. -/
def endText (ifOpen : String) : Option Key → String
  | none => ifOpen
  | some key => Text.escape (Text.decodeLossy key)

def text (range : KeyRange) : String :=
  "[" ++ endText "-inf" range.start ++ ", " ++ endText "+inf" range.stop ++ ")"

end KeyRange

end KeyScan
