import KeyScan.Key.Range

/-!
Regions: the pieces that a table is stored in, as a snapshot lists them.
-/

namespace KeyScan

/-- A region with its two boundary keys. An empty key bounds nothing. -/
structure Region where
  id : String
  startKey : Key
  stopKey : Key
  offline : Bool := false
  split : Bool := false
  splitParent : Bool := false
  deriving DecidableEq, Repr

namespace Region

/-- Taken offline after a split; its daughters hold the rows. -/
def isStale (region : Region) : Bool :=
  region.offline && (region.split || region.splitParent)

def boundary (key : Key) : Option Key :=
  if key = [] then none else some key

def keyRange (region : Region) : KeyRange :=
  ⟨boundary region.startKey, boundary region.stopKey⟩

end Region

end KeyScan
