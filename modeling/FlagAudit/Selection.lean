import FlagAudit.Glob.Match

/-!
# Choosing files by patterns

A file is chosen if no exclude pattern matches it and some include pattern does; with no include
pattern all that is not excluded is chosen. Patterns see the path of the file relative to the root
of the scan, in two spellings: bare, and behind `./`, so that a pattern that starts with two stars
and a slash reaches the entries of the root itself. A directory is also matched with a slash at its
end, so that a pattern for what is below it excludes the directory too.
-/

namespace FlagAudit

namespace Selection

/-- The spellings of a path that patterns see. -/
def spellings (cwd root path : String) : List String :=
  let bare := String.ofList (Glob.slashed (Path.relative cwd path root))
  [bare, "./" ++ bare]

/-- Whether an entry is excluded by one of the patterns. -/
def isExcluded (cwd root : String) (excludes : List String) (isDirectory : Bool) (path : String) :
    Bool :=
  !excludes.isEmpty && (spellings cwd root path).any fun form =>
    Glob.anyMatches excludes form || (isDirectory && Glob.anyMatches excludes (form ++ "/"))

/-- Whether a file is chosen. -/
def isChosen (cwd root : String) (includes excludes : List String) (path : String) : Bool :=
  !isExcluded cwd root excludes false path &&
    (includes.isEmpty || (spellings cwd root path).any (Glob.anyMatches includes))

/-- What patterns say about one path. -/
structure Verdict where
  /-- Whether the path is excluded as a file. -/
  excluded : Bool
  /-- Whether the path is excluded as a directory. -/
  excludedAsDirectory : Bool
  /-- Whether the path is chosen as a file. -/
  chosen : Bool
  deriving DecidableEq, Repr

/-- Why patterns say nothing about a path. -/
inductive Error where
  /-- The path is empty. -/
  | noPath
  deriving DecidableEq, Repr

/-- The wording of an error. -/
def Error.message : Error → String
  | .noPath => "no path specified"

/-- What patterns say about a path. An empty path is refused, but only if there is a pattern. -/
def judge (cwd root : String) (includes excludes : List String) (path : String) :
    Except Error Verdict :=
  if path.isEmpty && !(includes.isEmpty && excludes.isEmpty) then .error .noPath
  else .ok
    { excluded := isExcluded cwd root excludes false path
      excludedAsDirectory := isExcluded cwd root excludes true path
      chosen := isChosen cwd root includes excludes path }

end Selection

end FlagAudit
