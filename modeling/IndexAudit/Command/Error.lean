import IndexAudit.Config.Settings

/-! What makes a command fail. -/

namespace IndexAudit

/-- What makes a command fail. -/
inductive CommandError where
  | settings (error : SettingsError)
  /-- The root of the project is no directory. -/
  | notDirectory (root : String)
  | baseline (error : BaselineError)
  /-- A check found columns without an index. -/
  | findings (count : Nat)
deriving Repr, DecidableEq

namespace CommandError

/-- The text of a fault in the configuration. -/
def configurationMessage (text : String) : String :=
  "Configuration error: " ++ text

/-- The text of an error, where it does not depend on what the system or a reader says. -/
def message? : CommandError → Option String
  | .settings (.missing path) => some (configurationMessage ("config file not found: " ++ path))
  | .settings _ => none
  | .notDirectory root =>
    some (configurationMessage ("project root is not a directory: " ++ root))
  | .baseline error => error.message?.map ("Baseline error: " ++ ·)
  | .findings count => some ("Found " ++ toString count ++ " missing index(es)")

/-- The text of any error; what the system or a reader says is left out. -/
def text (error : CommandError) : String :=
  match error with
  | .settings .inaccessible => "IO error: the config file cannot be read"
  | .settings .malformed => configurationMessage "the config file is not valid"
  | .baseline .inaccessible => "Baseline error: the baseline file cannot be accessed"
  | .baseline .malformed => "Baseline error: the baseline file is not valid"
  | _ => error.message?.getD ""

end CommandError

end IndexAudit
