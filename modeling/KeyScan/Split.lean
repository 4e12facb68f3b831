import KeyScan.Condition
import KeyScan.Region
import KeyScan.Table.Meta

/-!
Splits: the pieces of a read that workers execute on their own.
-/

namespace KeyScan

/-- A worker that a split would best be read by. -/
structure HostAddress where
  host : String
  port : UInt16
  deriving DecidableEq, Repr

def HostAddress.text (address : HostAddress) : String :=
  address.host ++ ":" ++ Text.ofInteger address.port.toNat

/-- What a split reads: listed keys, a range of keys, or one region of a snapshot. -/
inductive ScanUnit where
  | batchGet (keys : List Key)
  | keyRange (range : KeyRange)
  | regionLocal (index : UInt64) (region : Region) (snapshot : String)
  deriving DecidableEq, Repr

/-- One piece of a read, with the conditions that its reader applies. -/
structure Split where
  schema : String
  table : String
  rowKeyColumn : String
  hostHints : List HostAddress
  conditions : List Condition
  unit : ScanUnit
  deriving DecidableEq, Repr

namespace Split

def qualified (split : Split) : String :=
  qualifiedName split.schema split.table

def keyRange? (split : Split) : Option KeyRange :=
  match split.unit with
  | .keyRange range => some range
  | _ => none

def batchKeys? (split : Split) : Option (List Key) :=
  match split.unit with
  | .batchGet keys => some keys
  | _ => none

end Split

def ScanUnit.summary : ScanUnit → String
  | .batchGet keys => "batch_get keys=" ++ Text.ofInteger keys.length
  | .keyRange range => "key_range " ++ range.text
  | .regionLocal index region snapshot =>
      "region_local #" ++ Text.ofInteger index.toNat ++ " region=" ++ region.id ++ " snapshot=" ++
        snapshot

/-- The split on one line. -/
def Split.summary (split : Split) : String :=
  split.qualified ++ " " ++ split.unit.summary ++ " conditions=" ++
    Text.ofInteger split.conditions.length ++ " hosts=[" ++
    String.intercalate "," (split.hostHints.map HostAddress.text) ++ "]"

end KeyScan
