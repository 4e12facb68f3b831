import KeyScan.Text.Pieces

/-!
Files and directories under a home directory: what a path leads to, and how a path comes to have a
file or a directory. A path is a text of names between slashes.
-/

namespace KeyScan

/-- What a path leads to. -/
inductive PathTarget where
  | file (bytes : List UInt8)
  | directory
  | missing
  /-- A path through a file, with a name that no file can have, or too long. -/
  | unreachable
  deriving DecidableEq, Repr

/-- A place in a tree: the names on the way down from home, after two dots for each step up. -/
abbrev Place := List String

/-- Files by their places, and directories, which may be empty. -/
structure FileTree where
  /-- The path of home from the top of all directories. -/
  home : String := "/home/directory"
  files : List (Place × List UInt8) := []
  directories : List Place := []

namespace FileTree

/-! ### Paths -/

/-- The longest name in bytes that a file may have. -/
def longestName : Nat := 255

/-- The longest path in bytes that can be followed. -/
def longestPath : Nat := 4095

/-- A path continued by a second one, which stands by itself if it starts at the top. -/
def join (path further : String) : String :=
  if further.startsWith "/" then further
  else if path.endsWith "/" then path ++ further
  else path ++ "/" ++ further

/-- Empty names and single dots lead nowhere. -/
def isIdle (name : String) : Bool :=
  name = "" || name = "."

/-- The names on a path that lead somewhere. -/
def namesOf (path : String) : List String :=
  (Text.pieces '/' path).filter (!isIdle ·)

/-- A path that is followed at all: from the top it is not too long, and no name on it has a null
character. -/
def isFollowed (tree : FileTree) (path : String) : Bool :=
  !path.contains '\x00' && (join tree.home path).utf8ByteSize ≤ longestPath

/-! ### Places -/

/-- The top of all directories: a step up from home for each name on its path. -/
def top (tree : FileTree) : Place :=
  (namesOf tree.home).map fun _ => ".."

/-- The directory that a place is in. The top is in itself. -/
def above (tree : FileTree) (place : Place) : Place :=
  if place = tree.top then place
  else if place.all (· = "..") then ".." :: place
  else place.dropLast

/-- Where a path starts: at the top if it begins with a slash, else at home. -/
def start (tree : FileTree) (path : String) : Place :=
  if path.startsWith "/" then tree.top else []

/-- What stands at a place. Home, what is above it, and directories on the way to something are
there. -/
def target (tree : FileTree) (place : Place) : PathTarget :=
  match tree.files.find? fun file => file.1 = place with
  | some file => .file file.2
  | none =>
      if place.isSuffixOf tree.top || tree.directories.any (place.isPrefixOf ·) ||
          tree.files.any (place.isPrefixOf ·.1) then .directory
      else .missing

/-! ### Reading and writing -/

/-- Follows names from the directory `here`. -/
def follow (tree : FileTree) (here : Place) : List String → PathTarget
  | [] => .directory
  | name :: rest =>
      if name = ".." then tree.follow (tree.above here) rest
      else if longestName < name.utf8ByteSize then .unreachable
      else
        match tree.target (here ++ [name]) with
        | .directory => tree.follow (here ++ [name]) rest
        | .file bytes => if rest = [] then .file bytes else .unreachable
        | other => other

/-- Where a path leads. -/
def read (tree : FileTree) (path : String) : PathTarget :=
  if tree.isFollowed path then tree.follow (tree.start path) (namesOf path) else .unreachable

/-- Follows names from the directory `here` and makes the directories that are missing. The second
part is where they lead; it is missing where a name cannot be that of a directory, and the
directories before it are made all the same. -/
def reach (tree : FileTree) (here : Place) : List String → FileTree × Option Place
  | [] => (tree, some here)
  | name :: rest =>
      if name = ".." then tree.reach (tree.above here) rest
      else if longestName < name.utf8ByteSize then (tree, none)
      else
        let place := here ++ [name]
        match tree.target place with
        | .directory => tree.reach place rest
        | .missing =>
            let tree := { tree with directories := place :: tree.directories }
            tree.reach place rest
        | _ => (tree, none)

/-- Makes a directory and those on the way to it. The second part tells whether it is there. -/
def makeDirectory (tree : FileTree) (path : String) : FileTree × Bool :=
  if tree.isFollowed path then
    let (tree, place) := tree.reach (tree.start path) (namesOf path)
    (tree, place.isSome)
  else (tree, false)

/-- Puts a file at a place, in place of a file that is there. -/
def putFile (tree : FileTree) (place : Place) (bytes : List UInt8) : FileTree :=
  { tree with files := (place, bytes) :: tree.files.filter fun file => file.1 ≠ place }

/-- The path without its last name, and without what leads nowhere on both sides of it. -/
def pathAbove (path : String) : String :=
  let upward := ((Text.pieces '/' path).reverse.dropWhile isIdle).tail
  "/".intercalate (upward.dropWhile isIdle).reverse

/-- Makes the directories on the way to a path. The second part is the last of them. -/
def makeWay (tree : FileTree) (path : String) : FileTree × Option Place :=
  let above := pathAbove path
  if tree.isFollowed above then tree.reach (tree.start path) (namesOf above) else (tree, none)

/-- Writes a file and makes the directories on the way to it, which stay if the file cannot be
written. The second part tells whether it is written: a path that does not end in a name, or leads
to a directory, has no file. -/
def write (tree : FileTree) (path : String) (bytes : List UInt8) : FileTree × Bool :=
  match tree.makeWay path, (Text.pieces '/' path).getLast? with
  | (tree, some directory), some name =>
      let place := directory ++ [name]
      if !tree.isFollowed path || isIdle name || name = ".." || longestName < name.utf8ByteSize ||
          tree.target place = .directory then (tree, false)
      else (tree.putFile place bytes, true)
  | (tree, _), _ => (tree, false)

end FileTree

end KeyScan
