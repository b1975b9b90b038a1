import FlagAudit.Text.Cursor

/-!
# Paths

A path is a text whose parts are separated by slashes. The operations here are textual: they look at
no file tree. `Path.normalize` removes empty parts and single dots and lets a double dot cancel the
part before it; `Path.relative` says how one path is spelled from another. Where a path is relative,
the working directory is an argument.
-/

namespace FlagAudit.Path

/-- The parts of a path between its slashes. -/
def parts (path : String) : List (List Char) := path.toList.splitOn '/'

/-- Parts put together with slashes between them. -/
def joinParts (ps : List (List Char)) : List Char := ['/'].intercalate ps

/-- Whether a path starts at the root of the tree. -/
def isAbsolute (path : String) : Bool := path.toList.head? == some '/'

/-- The path of `name` seen from the directory `dir`. -/
def join (dir name : String) : String :=
  if isAbsolute name then name
  else if dir.isEmpty || dir.toList.getLast? == some '/' then dir ++ name
  else dir ++ "/" ++ name

/-- How many slashes a normal path starts with: two stay two, any other number is one. -/
def leadingSlashes (path : List Char) : Nat :=
  match (path.takeWhile (· == '/')).length with
  | 0 => 0
  | 2 => 2
  | _ => 1

/-- The parts of a normal path, the last one first, after one more part. -/
def pushPart (absolute : Bool) (stack : List (List Char)) (part : List Char) : List (List Char) :=
  if part == [] || part == ['.'] then stack
  else if part == ['.', '.'] then
    match stack with
    | [] => if absolute then [] else [part]
    | top :: rest => if top == ['.', '.'] then part :: stack else rest
  else part :: stack

/-- The path without empty parts, single dots and needless double dots. -/
def normalize (path : String) : String :=
  let cs := path.toList
  let slashes := leadingSlashes cs
  let ps := ((cs.splitOn '/').foldl (pushPart (slashes != 0)) []).reverse
  let text := List.replicate slashes '/' ++ joinParts ps
  if text.isEmpty then "." else String.ofList text

/-- The normal absolute path, seen from the working directory. -/
def absolute (cwd path : String) : String :=
  if isAbsolute path then normalize path else normalize (join cwd path)

/-- The parts of a path that are not empty. -/
def properParts (path : String) : List (List Char) := (parts path).filter (!·.isEmpty)

/-- What is left of two lists of parts behind their common start. -/
def dropCommon : List (List Char) → List (List Char) → List (List Char) × List (List Char)
  | a :: as, b :: bs => if a == b then dropCommon as bs else (a :: as, b :: bs)
  | as, bs => (as, bs)

/-- How a path is spelled from the directory `start`, both seen from the working directory. -/
def relative (cwd path start : String) : String :=
  let (up, down) := dropCommon (properParts (absolute cwd start)) (properParts (absolute cwd path))
  let ps := up.map (fun _ => ['.', '.']) ++ down
  if ps.isEmpty then "." else String.ofList (joinParts ps)

/-- The path of the directory that holds a file: what is before the last slash, without slashes at
its end unless it has nothing else. -/
def parent (path : String) : String :=
  let head := (path.toList.reverse.dropWhile (· != '/')).reverse
  if head.all (· == '/') then String.ofList head
  else String.ofList (head.reverse.dropWhile (· == '/')).reverse

/-- What follows the last slash. -/
def name (path : String) : String :=
  String.ofList (path.toList.reverse.takeWhile (· != '/')).reverse

/-- The end of a path from its last dot on, if the last part has a dot behind some other
character; dots at the start of the part do not count. -/
def extension (path : String) : String :=
  let part := (name path).toList
  let body := part.dropWhile (· == '.')
  if body.contains '.' then
    String.ofList ('.' :: (body.reverse.takeWhile (· != '.')).reverse)
  else ""

end FlagAudit.Path
