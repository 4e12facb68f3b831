import KeyScan.Store.Reads

/-!
Cursors hand out the rows of a split in pages. All rows are read when the cursor opens.
-/

namespace KeyScan

/-- The rows of a split that are still to be handed out. -/
structure Cursor where
  table : String
  rows : List Row
  pageSize : Nat
  deriving DecidableEq, Repr

namespace Cursor

/-- Reads a split. Pages must hold a row at least. -/
def openOn (store : Store) (split : Split) (request : ScanRequest) (pageSize : Nat) :
    Except Error Cursor :=
  if pageSize = 0 then .error (.invalidConfig "page size must be greater than 0")
  else (store.readSplit split request).map fun rows => ⟨split.qualified, rows, pageSize⟩

/-- The next page, and the cursor past it; no page once the rows have run out. -/
def nextPage (cursor : Cursor) : Option (List Row) × Cursor :=
  if cursor.rows.isEmpty then (none, cursor)
  else
    (some (cursor.rows.take cursor.pageSize),
      { cursor with rows := cursor.rows.drop cursor.pageSize })

def remaining (cursor : Cursor) : Nat :=
  cursor.rows.length

/-- Up to `count` pages, until there are none. -/
def pagesUpTo : Nat → Cursor → List (List Row)
  | 0, _ => []
  | count + 1, cursor =>
      match cursor.nextPage with
      | (none, _) => []
      | (some page, rest) => page :: pagesUpTo count rest

/-- All pages. There are no more of them than rows. -/
def pages (cursor : Cursor) : List (List Row) :=
  cursor.pagesUpTo cursor.rows.length

/-- Deletes rows from the live table of the split, and counts those that were there. -/
def deleteRows (cursor : Cursor) (rows : List Row) (store : Store) : Except Error Nat × Store :=
  store.delete cursor.table (rows.map Row.key)

end Cursor

namespace Store

/-- The rows of one split, page after page. -/
def drainSplit (store : Store) (pageSize : Nat) (work : Split × ScanRequest) :
    Except Error (List Row) :=
  (Cursor.openOn store work.1 work.2 pageSize).map fun cursor => cursor.pages.flatten

/-- The rows of all splits, listed in the order in which their reads finish. The first read that
fails ends it. -/
def executeSplits (store : Store) (pageSize : Nat) (finished : List (Split × ScanRequest)) :
    Except Error (List Row) :=
  (finished.mapM (store.drainSplit pageSize)).map List.flatten

end Store

end KeyScan
