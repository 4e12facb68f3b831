/-!
Finite maps kept as entries in ascending key order. Insertion replaces the entry of an equal key,
so on a map built by insertion every key stands once (`OrderedMap.Sorted`).
-/

namespace KeyScan

/-- A map from keys to values, listed by key. -/
structure OrderedMap (κ ν : Type) where
  entries : List (κ × ν) := []
  deriving DecidableEq, Repr

namespace OrderedMap

variable {κ ν : Type}

def empty : OrderedMap κ ν := ⟨[]⟩

/-- The keys stand in strictly ascending order. -/
def Sorted [LT κ] (m : OrderedMap κ ν) : Prop :=
  m.entries.Pairwise fun a b => a.1 < b.1

section Entries

variable [LT κ] [DecidableLT κ] [DecidableEq κ]

/-- One pass over the entries: the new entry goes before the first larger key. -/
def insertEntry (key : κ) (value : ν) : List (κ × ν) → List (κ × ν)
  | [] => [(key, value)]
  | entry :: rest =>
      if key < entry.1 then (key, value) :: entry :: rest
      else if key = entry.1 then (key, value) :: rest
      else entry :: insertEntry key value rest

end Entries

def insert [LT κ] [DecidableLT κ] [DecidableEq κ] (m : OrderedMap κ ν) (key : κ) (value : ν) :
    OrderedMap κ ν :=
  ⟨insertEntry key value m.entries⟩

def find? [DecidableEq κ] (m : OrderedMap κ ν) (key : κ) : Option ν :=
  (m.entries.find? fun entry => entry.1 = key).map (·.2)

def contains [DecidableEq κ] (m : OrderedMap κ ν) (key : κ) : Bool :=
  m.entries.any fun entry => entry.1 = key

def erase [DecidableEq κ] (m : OrderedMap κ ν) (key : κ) : OrderedMap κ ν :=
  ⟨m.entries.filter fun entry => entry.1 ≠ key⟩

def size (m : OrderedMap κ ν) : Nat :=
  m.entries.length

def values (m : OrderedMap κ ν) : List ν :=
  m.entries.map (·.2)

end OrderedMap

end KeyScan
