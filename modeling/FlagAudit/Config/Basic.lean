import FlagAudit.Config.Setting
import FlagAudit.Distinct
import FlagAudit.Failure

/-!
# Configuration

What an audit looks at and how. Settings overlay the defaults: a list replaces the default list, its
items that are no texts are left out, and whatever has the wrong kind or an unknown name is ignored.
Two of the lists can be named in two ways; where both names occur, the second one counts.
-/

namespace FlagAudit

/-- The configuration of an audit. -/
structure Config where
  /-- The patterns of the files to look at. -/
  includes : List String := ["**/*.\x7bts,tsx,js,jsx\x7d", "**/.env", "**/.env.*"]
  /-- The patterns of the files to leave out. -/
  excludes : List String := ["**/node_modules/**", "**/dist/**", "**/build/**"]
  /-- The patterns that find references. -/
  patterns : List String :=
    ["process\\.env\\.([A-Z_]+)", "featureFlags\\.([a-zA-Z]+)", "flags\\.([a-zA-Z]+)",
      "config\\.flags\\.([a-zA-Z]+)", "isEnabled\\(['\"]([^'\"]+)['\"]\\)"]
  /-- The prefixes of the names of flags in the environment. -/
  prefixes : List String := ["FEATURE_", "ENABLE_"]
  /-- Whether any finding is a violation of policy. -/
  strict : Bool := false
  deriving DecidableEq, Repr

namespace Config

/-- A list from the last of some names that has a list. -/
def lastList (raw : Setting) (names : List String) (default : List String) : List String :=
  ((names.reverse.findSome? fun name => (raw.field? name).bind Setting.texts?)).getD default

/-- The configuration that settings amount to; they have to be a table. `path` says where they are
from. -/
def ofSetting (raw : Setting) (path : Option String) : Except Failure Config :=
  match raw with
  | .table _ =>
    let base : Config := {}
    .ok
      { includes := lastList raw ["include"] base.includes
        excludes := lastList raw ["exclude"] base.excludes
        patterns := lastList raw ["flag_patterns", "flagPatterns"] base.patterns
        prefixes := lastList raw ["env_var_prefixes", "envVarPrefixes"] base.prefixes
        strict := match raw.field? "strict" with
          | some (.flag value) => value
          | _ => base.strict }
  | _ => .error (.configuration "Configuration must be an object" path none)

/-- A configuration with more exclude patterns behind its own. If there are any, none of all occurs
twice. -/
def withExcludes (extra : List String) (c : Config) : Config :=
  if extra.isEmpty then c else { c with excludes := distinct (c.excludes ++ extra) }

/-- A configuration in strict mode, if that is asked for. -/
def withStrict (strict : Bool) (c : Config) : Config :=
  if strict then { c with strict := true } else c

end Config

end FlagAudit
