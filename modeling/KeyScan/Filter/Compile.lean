import KeyScan.Filter.Basic
import KeyScan.Table.Meta

/-!
Conditions compiled into the filter of a scan. Alternatives on one column become an "any", the
columns an "all"; what cannot be compared in the store is left out, so the filter admits at least
the rows that the conditions admit.
-/

namespace KeyScan.ScanFilter

/-- One filter as it is, several joined by "any". -/
def any? : List ScanFilter → Option ScanFilter
  | [] => none
  | [only] => some only
  | children => some (anyOf children)

/-! ### Conditions on the row key -/

def ofRowKeyCondition (c : Condition) : ScanFilter :=
  rowKey ⟨.ofOperator c.operator, c.value.key⟩

/-- The intervals of row-key conditions that come range by range: a lower bound with an upper bound
right after it is one of them. `low` is a lower bound whose next condition is still to be seen. -/
def intervals (low : Option ScanFilter) : List Condition → List ScanFilter
  | [] => low.toList
  | c :: rest =>
      let leaf := ofRowKeyCondition c
      if c.operator.isUpperBound then
        match low with
        | some start => allOf [start, leaf] :: intervals none rest
        | none => leaf :: intervals none rest
      else if c.operator.isLowerBound then low.toList ++ intervals (some leaf) rest
      else low.toList ++ leaf :: intervals none rest

def rowKeyGroup (conditions : List Condition) : Option ScanFilter :=
  any? (intervals none conditions)

/-! ### Conditions on other columns -/

def ofColumnCondition (family : String) (c : Condition) : Option ScanFilter := do
  let value ← c.value.convert? c.valueType
  return column { family, qualifier := c.column, comparison := .ofOperator c.operator,
                  value := value.toBytes }

/-- The alternatives on a column; none if its family is not known or one of the values is not of the
column's type. -/
def columnGroup (info : TableMeta) (name : String) (conditions : List Condition) :
    Option ScanFilter := do
  let family ← info.family? name
  let leaves ← conditions.mapM (ofColumnCondition family)
  any? leaves

/-- The conditions by column, in the order of the column names. -/
def byColumn (conditions : List Condition) : OrderedMap String (List Condition) :=
  conditions.foldl
    (fun groups c => groups.insert c.column ((groups.find? c.column).getD [] ++ [c])) .empty

/-- The filter of a scan for the projected columns. Row-key conditions are left out where the keys
that are read already meet them. A projection of the row key alone asks for first cells and drops
the conditions on other columns. -/
def compile (info : TableMeta) (conditions : List Condition) (projection : List String)
    (rowKeyEncoded : Bool) : Option ScanFilter :=
  let keyGroup :=
    if rowKeyEncoded then none else rowKeyGroup (conditionsOn info.rowKeyColumn conditions)
  if projection = [info.rowKeyColumn] then
    match keyGroup with
    | some group => some (allOf [firstKeyOnly, group])
    | none => some firstKeyOnly
  else
    let others := conditions.filter fun c => c.column ≠ info.rowKeyColumn
    let columnGroups :=
      (byColumn others).entries.filterMap fun entry => columnGroup info entry.1 entry.2
    match keyGroup.toList ++ columnGroups with
    | [] => none
    | groups => some (allOf groups)

end KeyScan.ScanFilter
