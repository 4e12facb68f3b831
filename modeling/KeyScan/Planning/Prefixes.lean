import KeyScan.Condition
import KeyScan.Table.Meta
import KeyScan.Word

/-!
Row-key prefixes: the texts that equalities on the leading components of the row-key format allow,
in every combination.
-/

namespace KeyScan.Planning

/-- More prefixes than the cap allows. -/
structure PrefixOverflow where
  cap : Nat
  deriving DecidableEq, Repr

def PrefixOverflow.message (overflow : PrefixOverflow) : String :=
  "row key prefix expansion exceeds " ++ Text.ofInteger overflow.cap ++ " prefixes"

/-- Distinct prefixes that all cover the first `depth` components. -/
structure Prefixes where
  texts : List String := []
  depth : Nat := 0
  /-- Every component is covered. -/
  complete : Bool := false
  deriving DecidableEq, Repr

/-- The distinct texts that equalities on a column allow; `none` if there are no equalities or one
of them has a value that is not of the column's type, as a part of the values would lose rows. -/
def equalityTexts (conditions : List Condition) (column : String) : Option (List String) :=
  let equalities := conditions.filter fun c => c.isEqualityOn column
  match equalities.mapM fun c => c.value.convert? c.valueType with
  | some (value :: values) => some ((value :: values).map Scalar.text).eraseDups
  | _ => none

/-- The texts of the leading components that have any. -/
def leadingTexts (conditions : List Condition) : List String → List (List String)
  | [] => []
  | component :: rest =>
      match equalityTexts conditions component with
      | some texts => texts :: leadingTexts conditions rest
      | none => []

/-- Every prefix so far continued by every text. -/
def extend (separator : String) (prefixes texts : List String) : List String :=
  prefixes.flatMap fun start => texts.map fun text => start ++ separator ++ text

/-- Extends the prefixes by one component after the other, within the cap. A number of prefixes past
the last machine word counts as the last. -/
def extendAll (cap : Nat) (separator : String) :
    List String → List (List String) → Except PrefixOverflow (List String)
  | prefixes, [] => .ok prefixes
  | prefixes, texts :: rest =>
      if cap < Word.saturatingMul prefixes.length texts.length then .error ⟨cap⟩
      else extendAll cap separator (extend separator prefixes texts) rest

/-- The prefixes over the components, in the order of the conditions. -/
def combine (cap : Nat) (separator : String) :
    List (List String) → Except PrefixOverflow (List String)
  | [] => .ok []
  | texts :: rest =>
      if cap < texts.length then .error ⟨cap⟩ else extendAll cap separator texts rest

/-- Expands the equalities among the conditions over the row-key format. -/
def Prefixes.expand (format : RowKeyFormat) (cap : Nat) (conditions : List Condition) :
    Except PrefixOverflow Prefixes := do
  let columns := leadingTexts conditions format.components
  let texts ← combine cap format.separator columns
  return {
    texts := texts.eraseDups
    depth := columns.length
    complete := 0 < columns.length && columns.length = format.components.length }

end KeyScan.Planning
