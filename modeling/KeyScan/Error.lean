import KeyScan.ColumnType
import KeyScan.Text.Integer

/-!
What can go wrong in planning and reading, and how it is told.
-/

namespace KeyScan

/-- A failure by its cause. -/
inductive Error where
  /-- A table, snapshot, column or metadata file that is not there. -/
  | notFound (entity id : String)
  /-- A name that is taken. -/
  | alreadyExists (entity id : String)
  /-- Metadata of a table that cannot be planned with. -/
  | invalidTableMeta (table message : String)
  /-- A metadata file that is not a JSON document of the right shape. -/
  | malformedTableMeta (table : String)
  | invalidConfig (message : String)
  /-- A character range or salt alphabet that does not parse or overlaps. -/
  | invalidRange (input message : String)
  /-- A condition value that has no counterpart in the type of its column. -/
  | coercion (column value : String) (target : ColumnType)
  /-- A snapshot that failed at every attempt; the message is that of the last one. -/
  | snapshotFailed (snapshot : String) (attempts : UInt32) (message : String)
  | storage (message : String)
  | internal (message : String)
  /-- A metadata file that cannot be read. -/
  | io
  | serialization (message : String)
  | deserialization (message : String)
  deriving DecidableEq, Repr

namespace Error

/-- The text of a failure. What a parser or the system says of a file is not modelled: the texts of
`malformedTableMeta` and `io` end where it would begin. -/
def message : Error → String
  | notFound entity id => entity ++ " `" ++ id ++ "` was not found"
  | alreadyExists entity id => entity ++ " `" ++ id ++ "` already exists"
  | invalidTableMeta table message => "invalid table meta for `" ++ table ++ "`: " ++ message
  | malformedTableMeta table => "invalid table meta for `" ++ table ++ "`: "
  | invalidConfig message => "invalid configuration: " ++ message
  | invalidRange input message => "invalid character range `" ++ input ++ "`: " ++ message
  | coercion column value target =>
      "cannot coerce `" ++ value ++ "` on column `" ++ column ++ "` to " ++ target.name
  | snapshotFailed snapshot attempts message =>
      "snapshot `" ++ snapshot ++ "` failed after " ++ Text.ofInteger attempts.toNat ++
        " attempts: " ++ message
  | storage message => "storage error: " ++ message
  | internal message => "internal error: " ++ message
  | io => "I/O error: "
  | serialization message => "serialization error: " ++ message
  | deserialization message => "deserialization error: " ++ message

/-- Caused by configuration, not by data or storage. -/
def isConfiguration : Error → Bool
  | invalidConfig _ => true
  | invalidRange _ _ => true
  | _ => false

end Error

end KeyScan
