import ModularGrammar.Text.Segment

/-!
# Paths

Slash-separated paths as texts: joining, the parent directory, and the normal form without empty
segments, `.` and avoidable `..`.  No file system is consulted.
-/

namespace ModularGrammar.Path

/-! ## Pieces of paths -/

/-- Whether the path begins at the root. -/
def isAbsolute (path : String) : Bool := Text.begins "/" path

/-- Whether the path is meant relative to the place where it is written: it is `.` or `..`, or
begins with one of them and a slash. -/
def isRelative (path : String) : Bool :=
  path == "." || path == ".." || Text.begins "./" path || Text.begins "../" path

/-- What stands before the last slash; the root itself for a path whose last slash is its first
character, and nothing for a path without slashes. -/
def parent (path : String) : String :=
  match path.toList.reverse.dropWhile (· ≠ '/') with
  | [] => ""
  | [_] => "/"
  | _ :: before => String.ofList before.reverse

/-- The path as seen from a directory.  Nothing is put before it for the empty directory, and no
slash after a directory that ends in one. -/
def join (directory path : String) : String :=
  if directory = "" then path
  else if directory.toList.getLast? = some '/' then directory ++ path
  else directory ++ "/" ++ path

/-! ## Normal form -/

/-- One segment more behind the normal form of those before it, which are given in reverse.  There
is nothing above the root of an absolute path. -/
def pushSegment (absolute : Bool) (before : List String) (segment : String) : List String :=
  if segment = "" ∨ segment = "." then before
  else if segment = ".." then
    match before with
    | last :: rest => if last = ".." then (if absolute then before else ".." :: before) else rest
    | [] => if absolute then [] else [".."]
  else segment :: before

/-- The segments of the normal form of a path. -/
def normalSegments (path : String) : List String :=
  ((Text.split '/' path).foldl (pushSegment (isAbsolute path)) []).reverse

def normalize (path : String) : String :=
  let joined := Text.join "/" (normalSegments path)
  if isAbsolute path then "/" ++ joined else if joined = "" then "." else joined

end ModularGrammar.Path
