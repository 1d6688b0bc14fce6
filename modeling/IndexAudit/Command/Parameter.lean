/-! The options of the command line, and the commands that take them. -/

namespace IndexAudit

/-- How the findings of a check are reported. -/
inductive ReportFormat where
  /-- Lines for a reader at a terminal. -/
  | readable
  | json
deriving Repr, DecidableEq

/-- The format of a name. -/
def ReportFormat.ofName? : String → Option ReportFormat
  | "text" => some .readable
  | "json" => some .json
  | _ => none

/-- An option of the command line. -/
inductive Parameter where
  | help
  | version
  | verbose
  | root
  | config
  | baseline
  | format
  | noFail
  | output
deriving Repr, DecidableEq

namespace Parameter

/-- The name of an option behind two dashes. -/
def long : Parameter → String
  | .help => "help"
  | .version => "version"
  | .verbose => "verbose"
  | .root => "root"
  | .config => "config"
  | .baseline => "baseline"
  | .format => "format"
  | .noFail => "no-fail"
  | .output => "output"

/-- The letter of an option behind one dash. -/
def letter? : Parameter → Option Char
  | .help => some 'h'
  | .version => some 'V'
  | .verbose => some 'v'
  | .root => some 'r'
  | .config => some 'c'
  | .baseline => some 'b'
  | .format => some 'f'
  | .noFail => none
  | .output => some 'o'

/-- Whether an option has a value. -/
def takesValue : Parameter → Bool
  | .root | .config | .baseline | .format | .output => true
  | .help | .version | .verbose | .noFail => false

/-- Whether a text is a value of an option: a path is any text but the empty one. -/
def accepts (parameter : Parameter) (value : String) : Bool :=
  match parameter with
  | .format => (ReportFormat.ofName? value).isSome
  | _ => !parameter.takesValue || !value.isEmpty

end Parameter

/-- A word of the command line that tells what to do. -/
inductive CommandName where
  | check
  | baseline
  | version
  /-- Explains the other commands. -/
  | help
deriving Repr, DecidableEq

namespace CommandName

/-- The command of a word. -/
def ofWord? : String → Option CommandName
  | "check" => some .check
  | "baseline" => some .baseline
  | "version" => some .version
  | "help" => some .help
  | _ => none

/-- The options that may stand in front of a command, and behind each. -/
def common : List Parameter :=
  [.help, .version, .verbose]

/-- The options that may stand behind a command. -/
def parameters : CommandName → List Parameter
  | .check => common ++ [.root, .config, .baseline, .format, .noFail]
  | .baseline => common ++ [.root, .config, .output]
  | .version => common
  | .help => []

end CommandName

end IndexAudit
