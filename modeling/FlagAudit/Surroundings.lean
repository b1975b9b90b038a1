import FlagAudit.Config.Load
import FlagAudit.Regex.Draft
import FlagAudit.Yaml.Reader

/-!
# What the program is run with

The library leaves open how YAML is read, which texts are nested too deeply, and what characters are called
(`Config.Readers`, `Regex.CharNames`). The program is run with a reader of YAML that is written out here,
takes values however deeply they are nested, and knows the names of the printable characters among the
first 128.
-/

namespace FlagAudit

/-! ### YAML -/

/-- What an error in YAML amounts to. -/
def Config.ofYamlFault : Yaml.Fault → Cause
  | .malformed => .badYaml
  | .badValue => .badValue "invalid value"
  | .tooLarge => .overflow "Python int too large to convert to C int"
  | .tooManyParts => .overflow "int too large to convert to float"
  | .noTruthValue word => .badKey (Text.quoted word)
  | .noDigits => .badIndex "string index out of range"
  | .noDate => .badAttribute "'NoneType' object has no attribute 'groupdict'"
  | .noDateText => .badType "expected string or bytes-like object, got 'list'"

/-- Configuration files are read as YAML by the reader of this library. -/
instance Config.ownReaders : Config.Readers where
  yaml bytes := do (Yaml.read (← Text.ofBytes bytes)).mapError Config.ofYamlFault
  isDeepJson _ := false
  isDeepToml _ := false

/-! ### Names of characters -/

namespace Regex

/-- The letters with a name that begins in the same way. -/
def letterNames (start : String) : List String :=
  "ABCDEFGHIJKLMNOPQRSTUVWXYZ".toList.map fun c => start ++ String.singleton c

/-- The names of the printable characters among the first 128, from the blank on. -/
def asciiNames : List String :=
  ["SPACE", "EXCLAMATION MARK", "QUOTATION MARK", "NUMBER SIGN", "DOLLAR SIGN", "PERCENT SIGN",
    "AMPERSAND", "APOSTROPHE", "LEFT PARENTHESIS", "RIGHT PARENTHESIS", "ASTERISK", "PLUS SIGN",
    "COMMA", "HYPHEN-MINUS", "FULL STOP", "SOLIDUS", "DIGIT ZERO", "DIGIT ONE", "DIGIT TWO",
    "DIGIT THREE", "DIGIT FOUR", "DIGIT FIVE", "DIGIT SIX", "DIGIT SEVEN", "DIGIT EIGHT",
    "DIGIT NINE", "COLON", "SEMICOLON", "LESS-THAN SIGN", "EQUALS SIGN", "GREATER-THAN SIGN",
    "QUESTION MARK", "COMMERCIAL AT"] ++
  letterNames "LATIN CAPITAL LETTER " ++
  ["LEFT SQUARE BRACKET", "REVERSE SOLIDUS", "RIGHT SQUARE BRACKET", "CIRCUMFLEX ACCENT",
    "LOW LINE", "GRAVE ACCENT"] ++
  letterNames "LATIN SMALL LETTER " ++
  ["LEFT CURLY BRACKET", "VERTICAL LINE", "RIGHT CURLY BRACKET", "TILDE"]

/-- The character that goes by a name among the first 128. Capitals and small letters are the same. -/
def asciiNamed? (name : List Char) : Option Char :=
  (asciiNames.idxOf? (String.ofList (name.map Char.toUpper))).map fun i => Char.ofNat (' '.toNat + i)

/-- Characters are called by the names of the first 128. -/
instance asciiCharNames : CharNames := ⟨asciiNamed?⟩

end Regex

end FlagAudit
