import FlagAudit.Path
import FlagAudit.Text.Digit
import FlagAudit.Text.Quoted

/-!
# Command-line arguments

Options and one path, in any order. An option can be shortened as long as it stays unambiguous, a
value can be attached to its option by an equals sign, and behind two hyphens nothing is an option
any more. All arguments are told apart before any of them takes effect, so an ambiguous option is
reported even behind one that would end the command.
-/

namespace FlagAudit.Command

/-- An option. -/
inductive Opt where
  /-- Shows how the command is used. -/
  | help
  /-- A report for continuous integration. -/
  | ci
  /-- A report for a program. -/
  | json
  /-- Names the configuration file. -/
  | config
  /-- Leaves out more files. -/
  | ignore
  /-- Any finding is a violation of policy. -/
  | strict
  /-- Lists every finding and follows every step. -/
  | verbose
  /-- Says how many files are searched at the same time. -/
  | workers
  /-- Shows the version. -/
  | version
  deriving DecidableEq, Repr

/-- The spellings of the options. -/
def spellings : List (String × Opt) :=
  [("-h", .help), ("--help", .help), ("--ci", .ci), ("--json", .json), ("--config", .config),
    ("--ignore", .ignore), ("--strict", .strict), ("--verbose", .verbose),
    ("--workers", .workers), ("--version", .version)]

/-- Whether an option takes a value. -/
def Opt.takesValue : Opt → Bool
  | .config | .ignore | .workers => true
  | _ => false

/-- The name of an option in messages: all its spellings. -/
def Opt.name (o : Opt) : String :=
  "/".intercalate ((spellings.filter (·.2 == o)).map (·.1))

/-- What is asked of the command. -/
structure Options where
  /-- The path to scan. -/
  path : String := "."
  /-- A report for continuous integration. -/
  ci : Bool := false
  /-- A report for a program. -/
  json : Bool := false
  /-- The configuration file; an empty name is none. -/
  config : String := ""
  /-- More exclude patterns. -/
  ignore : List String := []
  /-- Any finding is a violation of policy. -/
  strict : Bool := false
  /-- Lists every finding and follows every step. -/
  verbose : Bool := false
  /-- How many files are searched at the same time. -/
  workers : Int := 1
  deriving DecidableEq, Repr

/-- What arguments amount to. -/
inductive Parsed where
  /-- The command runs. -/
  | run (options : Options)
  /-- It shows how it is used. -/
  | help
  /-- It shows its version. -/
  | version
  /-- The arguments cannot be understood. -/
  | misuse (message : String)
  deriving DecidableEq, Repr

/-! ### Telling arguments apart -/

/-- A value that is attached to an option. -/
inductive Attached where
  /-- None. -/
  | none
  /-- One behind an equals sign. -/
  | byEquals (value : String)
  /-- One that directly follows an option of one letter. -/
  | directly (value : String)
  deriving DecidableEq, Repr

/-- An argument that has been told apart. -/
inductive Argument where
  /-- A value or a path. -/
  | plain (text : String)
  /-- An option. -/
  | option (opt : Opt) (attached : Attached)
  /-- Something like an option that there is not. -/
  | unknown (text : String)
  deriving DecidableEq, Repr

/-- A text up to the first equals sign, and what is behind it if there is one. -/
def splitEquals (s : String) : String × Option String :=
  let cs := s.toList
  let name := cs.takeWhile (· != '=')
  match cs.drop name.length with
  | _ :: value => (String.ofList name, some (String.ofList value))
  | [] => (s, none)

/-- A value as attached by an equals sign. -/
def Attached.ofEquals : Option String → Attached
  | some v => .byEquals v
  | Option.none => .none

/-- Whether a text starts with another. -/
def startsWith (start s : String) : Bool := start.toList.isPrefixOf s.toList

/-- The options that an argument can be short for, with their spellings. -/
def candidates (s : String) : List (String × Argument) :=
  let (name, value) := splitEquals s
  if startsWith "--" s then
    (spellings.filter fun o => startsWith name o.1).map fun o =>
      (o.1, .option o.2 (.ofEquals value))
  else
    let letter := String.ofList (s.toList.take 2)
    (spellings.filter (·.1 == letter)).map fun o =>
      (o.1, .option o.2 (.directly (String.ofList (s.toList.drop 2))))

/-- Whether a text has the form of a negative number. A line feed may end it. -/
def isNegativeNumber (s : List Char) : Bool :=
  let s := if s.getLast? == some '\n' then s.dropLast else s
  match s with
  | '-' :: rest =>
    let whole := rest.takeWhile Text.isDecimalDigit
    match rest.dropWhile Text.isDecimalDigit with
    | [] => !whole.isEmpty
    | '.' :: fraction => !fraction.isEmpty && fraction.all Text.isDecimalDigit
    | _ => false
  | _ => false

/-- Tells an argument apart. -/
def classify (s : String) : Except String Argument :=
  let (name, value) := splitEquals s
  if !startsWith "-" s then .ok (.plain s)
  else match spellings.lookup s with
    | some o => .ok (.option o .none)
    | none =>
      if s == "-" then .ok (.plain s)
      else match value, spellings.lookup name with
        | some v, some o => .ok (.option o (.byEquals v))
        | _, _ =>
          match candidates s with
          | [(_, a)] => .ok a
          | [] =>
            if isNegativeNumber s.toList || s.toList.contains ' ' then .ok (.plain s)
            else .ok (.unknown s)
          | cs =>
            .error ("ambiguous option: " ++ s ++ " could match " ++
              ", ".intercalate (cs.map (·.1)))

/-- Arguments up to two hyphens, told apart, and those behind them. -/
def split : List String → Except String (List Argument × Option (List String))
  | [] => .ok ([], none)
  | s :: rest =>
    if s == "--" then .ok ([], some rest)
    else do
      let a ← classify s
      let (as, behind) ← split rest
      return (a :: as, behind)

/-! ### Taking effect -/

/-- How far the arguments have taken effect. -/
structure Progress where
  /-- What is asked so far. -/
  options : Options := {}
  /-- An option that waits for its value. -/
  pending : Option Opt := none
  /-- Whether the path has been given. -/
  pathGiven : Bool := false
  /-- Whether the last argument was the path. -/
  afterPath : Bool := false
  /-- The arguments that there is no use for. -/
  extras : List String := []
  deriving DecidableEq, Repr

/-- A result that ends the command. -/
def misuseOf (o : Opt) (message : String) : Parsed :=
  .misuse ("argument " ++ o.name ++ ": " ++ message)

/-- An option that has no value takes effect, or waits for its value. -/
def switchOn (o : Opt) (p : Progress) : Except Parsed Progress :=
  let p := { p with afterPath := false }
  match o with
  | .help => .error .help
  | .version => .error .version
  | .ci => .ok { p with options.ci := true }
  | .json => .ok { p with options.json := true }
  | .strict => .ok { p with options.strict := true }
  | .verbose => .ok { p with options.verbose := true }
  | .config | .ignore | .workers => .ok { p with pending := some o }

/-- An option takes effect with its value. -/
def assign (o : Opt) (value : String) (p : Progress) : Except Parsed Progress :=
  let p := { p with pending := none, afterPath := false }
  match o with
  | .config => .ok { p with options.config := value }
  | .ignore => .ok { p with options.ignore := p.options.ignore ++ [value] }
  | .workers =>
    match Text.wholeNumber? value.toList with
    | some n => .ok { p with options.workers := n }
    | none => .error (misuseOf o ("invalid int value: " ++ Text.quoted value))
  | .help | .ci | .json | .strict | .verbose | .version => .ok p

/-- A result for a value that an option does not take. -/
def ignored (o : Opt) (value : String) : Parsed :=
  misuseOf o ("ignored explicit argument " ++ Text.quoted value)

/-- Letters that directly follow an option of one letter are such options too; of these there is
only the one that shows how the command is used. -/
def letters (o : Opt) : List Char → Parsed
  | [] => .help
  | 'h' :: '=' :: value => ignored o (String.ofList value)
  | 'h' :: rest =>
    match rest with
    | '-' :: _ => ignored o (String.ofList rest)
    | _ => letters o rest
  | _ => .help

/-- An option with an attached value that it does not take. -/
def refuse (o : Opt) : Attached → Parsed
  | .directly value =>
    if startsWith "-" value then ignored o value else letters o value.toList
  | .byEquals value => ignored o value
  | .none => .help

/-- A path, or an argument that there is no use for. -/
def takePlain (s : String) (p : Progress) : Progress :=
  if p.pathGiven then { p with afterPath := false, extras := p.extras ++ [s] }
  else { p with options.path := s, pathGiven := true, afterPath := true }

/-- An option takes effect with what is attached to it. -/
def takeOption (o : Opt) (attached : Attached) (p : Progress) : Except Parsed Progress :=
  match attached with
  | .none => switchOn o p
  | .byEquals value | .directly value =>
    if o.takesValue then assign o value p else .error (refuse o attached)

/-- No option waits for its value any more. -/
def settled (p : Progress) : Except Parsed Progress :=
  match p.pending with
  | some o => .error (misuseOf o "expected one argument")
  | none => .ok p

/-- An argument takes effect. Only a plain one can be the value of an option before it. -/
def take (p : Progress) : Argument → Except Parsed Progress
  | .plain s =>
    match p.pending with
    | some o => assign o s p
    | none => .ok (takePlain s p)
  | .unknown s => do
    let p ← settled p
    return { p with afterPath := false, extras := p.extras ++ [s] }
  | .option o attached => do takeOption o attached (← settled p)

/-- Arguments take effect, one after the other. -/
def takeAll (as : List Argument) : Except Parsed Progress := do
  settled (← as.foldlM take {})

/-- The arguments behind two hyphens take effect. The hyphens themselves count as an argument that
there is no use for, unless the path is directly before or behind them. -/
def takeBehind (behind : Option (List String)) (p : Progress) : Progress :=
  match behind with
  | none => p
  | some rest =>
    if p.pathGiven then
      { p with extras := p.extras ++ (if p.afterPath then rest else "--" :: rest) }
    else match rest with
      | [] => p
      | s :: rest => { takePlain s p with extras := p.extras ++ rest }

/-- What arguments amount to. -/
def parse (arguments : List String) : Parsed :=
  match split arguments with
  | .error message => .misuse message
  | .ok (as, behind) =>
    match takeAll as with
    | .error result => result
    | .ok p =>
      let p := takeBehind behind p
      if p.extras.isEmpty then .run p.options
      else .misuse ("unrecognized arguments: " ++ " ".intercalate p.extras)

end FlagAudit.Command
