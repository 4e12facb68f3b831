import KeyScan.Json.Record
import KeyScan.Planning.Planner

/-!
JSON form of read strategies.
-/

namespace KeyScan.Planning.Strategy

def tag : Strategy → String
  | batchGet => "batch_get"
  | regionLocal => "region_local"
  | keyRange => "key_range"

def ofTag? : String → Option Strategy
  | "batch_get" => some batchGet
  | "region_local" => some regionLocal
  | "key_range" => some keyRange
  | _ => none

def toJson (strategy : Strategy) : Json := .text strategy.tag

def ofJson? : Json → Option Strategy := Json.choice? ofTag?

end KeyScan.Planning.Strategy
