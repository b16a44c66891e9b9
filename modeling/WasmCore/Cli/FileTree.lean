/-!
# Files

A tree of files to look paths up in. A path is followed part by part: it fails where nothing stands,
where a file is taken for a directory, and at a name that is too long for a directory to hold.
`Place.below` is where a path leads if nothing is in its way, and `FileTree.look` is what is found
there.
-/

namespace WasmCore.Cli

/-- What a path leads to. -/
inductive Entry where
  | file (bytes : List UInt8)
  | directory
  /-- There is nothing. -/
  | missing
  /-- The path goes through a file as if it were a directory. -/
  | notDirectory
  /-- The path or one of its parts has too many bytes. -/
  | nameTooLong
  /-- No path has a null character. -/
  | invalid
  deriving DecidableEq, Repr

/-! ### Places -/

/-- A directory that is known without a name. -/
inductive Base where
  | root
  /-- So many levels above the working directory, which itself is at level zero. -/
  | above (levels : Nat)
  deriving DecidableEq, Repr

/-- The directory above; the root is its own. -/
def Base.parent : Base → Base
  | .root => .root
  | .above levels => .above (levels + 1)

/-- A place in the tree of directories: the names that lead there from a base. -/
structure Place where
  base : Base := .above 0
  names : List String := []
  deriving DecidableEq, Repr

namespace Place

/-- Follows one part of a path: `..` leads up, nothing and `.` lead nowhere. -/
def step (p : Place) (part : String) : Place :=
  if part = "" || part = "." then p
  else if part = ".." then
    if p.names.isEmpty then { p with base := p.base.parent }
    else { p with names := p.names.dropLast }
  else { p with names := p.names ++ [part] }

/-- Where a path leads from a place. -/
def below (p : Place) (path : String) : Place := (path.splitOn "/").foldl step p

/-- Where the first part of a path is looked for. -/
def start (path : String) : Place := if path.startsWith "/" then { base := .root } else {}

end Place

/-! ### Trees -/

/-- Files by their places, each with its bytes unless it is a directory. -/
abbrev FileTree := List (Place × Option (List UInt8))

namespace FileTree

/-- What is found everywhere: a directory for temporary files, and a file that is always empty. -/
def system : FileTree :=
  [({ base := .root, names := ["tmp"] }, none),
    ({ base := .root, names := ["dev", "null"] }, some [])]

/-- Creates a file or directory below the working directory, in place of what stood there. -/
def insert (t : FileTree) (path : String) (contents : Option (List UInt8)) : FileTree :=
  let place := Place.below {} path
  (place, contents) :: t.filter fun (p, _) => p ≠ place

/-- The tree of the files that were created, in their order. -/
def ofFiles (files : List (String × Option (List UInt8))) : FileTree :=
  files.foldl (fun t (path, contents) => t.insert path contents) system

/-- What stands at a place. A base and all that has something below it are directories. -/
def entryAt (t : FileTree) (place : Place) : Entry :=
  match t.find? fun (p, _) => p = place with
  | some (_, some bytes) => .file bytes
  | some (_, none) => .directory
  | none =>
    if place.names.isEmpty ||
        t.any (fun (p, _) => p.base = place.base && place.names.isPrefixOf p.names) then .directory
    else .missing

/-- The bytes that a name may have. -/
def nameLimit : Nat := 255

/-- The bytes that a path may have. -/
def pathLimit : Nat := 4095

/-- Follows the parts of a path from a place, which is a directory. -/
def follow (t : FileTree) (place : Place) : List String → Entry
  | [] => .directory
  | part :: rest =>
    if nameLimit < part.utf8ByteSize then .nameTooLong
    else
      match t.entryAt (place.step part) with
      | .directory => t.follow (place.step part) rest
      | .file bytes => if rest.isEmpty then .file bytes else .notDirectory
      | other => other

/-- Paths that are not looked up. -/
def refused? (path : String) : Option Entry :=
  if path.contains '\x00' then some .invalid
  else if path.isEmpty then some .missing
  else if pathLimit < path.utf8ByteSize then some .nameTooLong
  else none

/-- What a path leads to. -/
def look (t : FileTree) (path : String) : Entry :=
  (refused? path).getD (t.follow (.start path) (path.splitOn "/"))

end FileTree

end WasmCore.Cli
