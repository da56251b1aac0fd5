import ModularGrammar.Error
import ModularGrammar.Path

/-!
# File trees

A part of a file system, held as a value: a directory with all that is below it, and a current
directory somewhere in it.  Paths are followed name by name, so every directory on the way must be
there even if `..` leaves it again.  Nothing is known of what lies above the tree, and no name is
found there.

## Architecture

1. `Place`, `FileTree`: what stands where
2. `FileTree.follow`: the place a path leads to
3. `FileTree.read`, `FileTree.readText`, `FileTree.write`: files
-/

namespace ModularGrammar

/-- A place in a tree: the names that lead to it, the innermost first. -/
abbrev Place := List String

/-- What stands at a place. -/
inductive FileTree.Entry where
  | directory
  | file (content : ByteArray)

/-- A directory with all that is below it. -/
structure FileTree where
  /-- What stands where; the first entry for a place counts.  The tree itself is a directory without
  an entry. -/
  entries : List (Place × FileTree.Entry) := []
  /-- The directory from which paths are followed. -/
  current : Place := []

namespace FileTree

/-! ## Places -/

/-- What stands at a place. -/
def at? (tree : FileTree) (place : Place) : Option Entry :=
  if place = [] then some .directory else tree.entries.lookup place

/-- The tree with an entry set. -/
def set (tree : FileTree) (place : Place) (entry : Entry) : FileTree :=
  { tree with entries := (place, entry) :: tree.entries }

/-- The place a path leads to from another, as its names say, whatever there is. -/
def placeOf (base : Place) (path : String) : Place :=
  (Text.split '/' path).foldl (fun place name =>
    if name = "" ∨ name = "." then place
    else if name = ".." then place.tail
    else name :: place) base

/-- The tree with directories at a place and on the way to it, as far as nothing is there. -/
def makeDirectories (tree : FileTree) : Place → FileTree
  | [] => tree
  | name :: above =>
    let tree := tree.makeDirectories above
    if (tree.at? (name :: above)).isSome then tree else tree.set (name :: above) .directory

/-- The tree that has nothing but its current directory. -/
def ofCurrent (current : Place) : FileTree :=
  ({ current } : FileTree).makeDirectories current

/-- The tree with a directory at a path. -/
def addDirectory (tree : FileTree) (path : String) : FileTree :=
  tree.makeDirectories (placeOf tree.current path)

/-- The tree with a file at a path, and with the directories it needs. -/
def addFile (tree : FileTree) (path : String) (content : ByteArray) : FileTree :=
  let place := placeOf tree.current path
  (tree.makeDirectories place.tail).set place (.file content)

/-! ## Following paths -/

/-- Where a path has led to so far. -/
inductive Spot where
  | inside (place : Place)
  /-- Somewhere above the tree. -/
  | above

def Spot.parent : Spot → Spot
  | .inside (_ :: place) => .inside place
  | _ => .above

def isDirectory (tree : FileTree) : Spot → Bool
  | .above => true
  | .inside place =>
    match tree.at? place with
    | some .directory => true
    | _ => false

/-- The longest name a file can have, in bytes. -/
def maxNameLength : Nat := 255

/-- The length from which on a path is too long, in bytes. -/
def maxPathLength : Nat := 4096

/-- Where a name leads to. -/
def step (tree : FileTree) (spot : Spot) (name : String) : Except FileError Spot :=
  if !tree.isDirectory spot then .error .notADirectory
  else if name = "" ∨ name = "." then .ok spot
  else if name = ".." then .ok spot.parent
  else if maxNameLength < name.utf8ByteSize then .error .nameTooLong
  else
    match spot with
    | .above => .error .notFound
    | .inside place =>
      if (tree.at? (name :: place)).isSome then .ok (.inside (name :: place)) else .error .notFound

/-- Whether a path can be followed at all. -/
def checkPath (path : String) : Except FileError Unit :=
  if '\x00' ∈ path.toList then .error .nulInPath
  else if path = "" then .error .notFound
  else if maxPathLength ≤ path.utf8ByteSize then .error .nameTooLong
  else .ok ()

/-- Where some names lead to, from the current directory or, for an absolute path, from the root of
the file system. -/
def follow (tree : FileTree) (absolute : Bool) (names : List String) : Except FileError Spot :=
  names.foldlM tree.step (if absolute then .above else .inside tree.current)

/-! ## Reading -/

/-- The content of the file at a path. -/
def read (tree : FileTree) (path : String) : Except FileError ByteArray := do
  checkPath path
  match ← tree.follow (Path.isAbsolute path) (Text.split '/' path) with
  | .above => throw .isADirectory
  | .inside place =>
    match tree.at? place with
    | some (.file content) => return content
    | _ => throw .isADirectory

/-- The text that the content of a file stands for. -/
def textOf (content : ByteArray) : Except FileError String :=
  match String.fromUTF8? content with
  | some text => .ok text
  | none => .error .notText

/-- The text in the file at a path. -/
def readText (tree : FileTree) (path : String) : Except FileError String :=
  (tree.read path).bind textOf

/-! ## Writing -/

/-- The tree after a text has been written to the file at a path, which may be new. -/
def write (tree : FileTree) (path text : String) : Except FileError FileTree := do
  checkPath path
  let names := (Text.split '/' path).reverse
  match names.dropWhile (· = "") with
  | [] => throw .isADirectory
  | name :: above =>
    let spot ← tree.follow (Path.isAbsolute path) above.reverse
    if !tree.isDirectory spot then throw .notADirectory
    if names.head? = some "" ∨ name = "." ∨ name = ".." then throw .isADirectory
    if maxNameLength < name.utf8ByteSize then throw .nameTooLong
    match spot with
    | .above => throw .notFound
    | .inside place =>
      match tree.at? (name :: place) with
      | some .directory => throw .isADirectory
      | _ => return tree.set (name :: place) (.file text.toUTF8)

end FileTree

end ModularGrammar
