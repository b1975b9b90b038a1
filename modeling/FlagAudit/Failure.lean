import FlagAudit.Text.Digit
import FlagAudit.Text.Quoted

/-!
# Failures

What stands in the way of an audit. A `Cause` comes from beneath: from the file tree, from the bytes
of a file, or from a notation that is not followed. A `Failure` is what the audit makes of it; it
carries the cause, and what it is about.
-/

namespace FlagAudit

/-- Something beneath the audit that failed. -/
inductive Cause where
  /-- There is no such file. -/
  | missingFile
  /-- A file is asked for, and it is a directory. -/
  | isDirectory
  /-- A directory is asked for, and it is none. -/
  | notDirectory
  /-- The file tree refuses for another reason. -/
  | refused
  /-- The bytes of a file are not UTF-8. -/
  | notUtf8
  /-- A text is not JSON. -/
  | badJson
  /-- A text is not YAML. -/
  | badYaml
  /-- A text is not TOML. -/
  | badToml
  /-- A text is not a regular expression. -/
  | badPattern
  /-- A value is not one of those allowed. -/
  | badValue (text : String)
  /-- A number is too large. -/
  | overflow (text : String)
  /-- A value is of a kind that is not asked for. -/
  | badType (text : String)
  /-- A value lacks what is asked of it. -/
  | badAttribute (text : String)
  /-- Nothing goes by a name. -/
  | badKey (text : String)
  /-- Nothing stands at a position. -/
  | badIndex (text : String)
  /-- Values are nested too deeply to be read. -/
  | tooDeep
  deriving DecidableEq, Repr

namespace Cause

/-- The name of the class of a cause, by which reports call it. -/
def label : Cause → String
  | .missingFile => "FileNotFoundError"
  | .isDirectory => "IsADirectoryError"
  | .notDirectory => "NotADirectoryError"
  | .refused => "OSError"
  | .notUtf8 => "UnicodeDecodeError"
  | .badJson => "JSONDecodeError"
  | .badYaml => "YAMLError"
  | .badToml => "TOMLDecodeError"
  | .badPattern => "RegexError"
  | .badValue _ => "ValueError"
  | .overflow _ => "OverflowError"
  | .badType _ => "TypeError"
  | .badAttribute _ => "AttributeError"
  | .badKey _ => "KeyError"
  | .badIndex _ => "IndexError"
  | .tooDeep => "RecursionError"

/-- The wording of a cause, if it has one. -/
def wording? : Cause → Option String
  | .badValue text | .overflow text | .badType text | .badAttribute text | .badKey text
  | .badIndex text => some text
  | _ => none

/-- The class of a cause in angle brackets, where its wording does not matter. -/
def tag (c : Cause) : String := "<" ++ c.label ++ ">"

/-- How a cause is spelled inside another message. -/
def text (c : Cause) : String := c.wording?.getD c.tag

/-- How a cause is spelled out for someone who looks for mistakes in the audit itself. -/
def details (c : Cause) : String :=
  c.label ++ "(" ++ ((c.wording?.map Text.quoted).getD "") ++ ")"

/-- A number has more digits than a number may have. -/
def tooManyDigits (count : Nat) : Cause :=
  .badValue ("Exceeds the limit (" ++ toString Text.digitLimit ++
    " digits) for integer string conversion: value has " ++ toString count ++
    " digits; use sys.set_int_max_str_digits() to increase the limit")

/-- A number has too many digits to be written. -/
def unwritable : Cause :=
  .badValue ("Exceeds the limit (" ++ toString Text.digitLimit ++
    " digits) for integer string conversion; use sys.set_int_max_str_digits() to increase the limit")

/-- Whether a cause concerns one file only: the tree, or a value read from the file. -/
def concernsFile : Cause → Bool
  | .overflow _ | .badType _ | .badAttribute _ | .badKey _ | .badIndex _ | .tooDeep | .badYaml
  | .badPattern => false
  | _ => true

end Cause

/-- Why an audit, or a part of it, fails. -/
inductive Failure where
  /-- The configuration cannot be used. -/
  | configuration (message : String) (path : Option String) (cause : Option Cause)
  /-- The files cannot be listed. -/
  | scan (message path : String) (cause : Option Cause)
  /-- A pattern cannot be used. -/
  | pattern (message path pattern : String) (cause : Option Cause)
  /-- A cause that nothing else accounts for. -/
  | internal (message : String) (cause : Cause)
  /-- A cause that is passed on as it is. -/
  | bare (cause : Cause)
  deriving DecidableEq, Repr

namespace Failure

/-- The wording of a failure. -/
def message : Failure → String
  | .configuration m _ _ | .scan m _ _ | .pattern m _ _ _ | .internal m _ => m
  | .bare c => c.text

/-- Whether a failure concerns one file only, so that an audit goes on without the file. -/
def concernsFile : Failure → Bool
  | .pattern .. => true
  | .bare c => c.concernsFile
  | _ => false

end Failure

end FlagAudit
