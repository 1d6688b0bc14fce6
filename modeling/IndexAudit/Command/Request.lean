import IndexAudit.Command.Options
import IndexAudit.Config.Environment

/-! What the arguments of the program ask for. -/

namespace IndexAudit

/-- What a check is asked to do. -/
structure CheckRequest where
  root : String
  config : Option String
  baseline : Option String
  format : ReportFormat
  /-- Whether findings may make the check fail. -/
  mayFail : Bool
deriving Repr, DecidableEq

/-- What the recording of a baseline is asked to do. -/
structure RecordRequest where
  root : String
  config : Option String
  /-- The file to write, in place of the configured one. -/
  output : Option String
deriving Repr, DecidableEq

/-- A command with its options. -/
inductive Command where
  | check (request : CheckRequest)
  | record (request : RecordRequest)
  | version
deriving Repr, DecidableEq

/-- A command, and whether it is to tell more of what it does. -/
structure Invocation where
  isVerbose : Bool
  command : Command
deriving Repr, DecidableEq

namespace Invocation

/-- The root of a project that is not named. -/
def defaultRoot : String := "."

/-- The variable that names the configuration file where no option does. -/
def configVariable : String := "IDXLINT_CONFIG"

/-- The configuration file that is asked for. -/
def config? (environment : Environment) (options : Options) :
    Except UsageNotice (Option String) :=
  match options.value? .config, environment.value? configVariable with
  | some path, _ => .ok (some path)
  | none, none => .ok none
  | none, some path => if path.isEmpty then .error .invalidValue else .ok (some path)

/-- The root of the project that is asked for. -/
def root (options : Options) : String :=
  (options.value? .root).getD defaultRoot

/-- The format that is asked for. -/
def format (options : Options) : ReportFormat :=
  ((options.value? .format).bind ReportFormat.ofName?).getD .readable

/-- A command with the options behind it. -/
def commandOf (environment : Environment) (options : Options) :
    CommandName → Except UsageNotice Command
  | .check => do
    return .check ⟨root options, ← config? environment options, options.value? .baseline,
      format options, !options.has .noFail⟩
  | .baseline => do
    return .record ⟨root options, ← config? environment options, options.value? .output⟩
  | .version => .ok .version
  | .help => .error .help

/-- What is said about the words that name what to explain. -/
def helpNotice : List String → UsageNotice
  | [] => .help
  | [word] => if (CommandName.ofWord? word).isSome then .help else .unknownCommand
  | _ => .unknownCommand

/-- Reads the arguments behind a command. -/
def ofCommand (environment : Environment) (isVerbose : Bool) (name : CommandName)
    (arguments : List String) : Except UsageNotice Invocation := do
  let read ← OptionsRead.ofArguments name.parameters .empty arguments
  if read.others.isEmpty then
    let options ← read.reading.settled
    return ⟨isVerbose || options.has .verbose, ← commandOf environment options name⟩
  else .error .unknownArgument

/-- Reads the arguments of the program. -/
def ofArguments (environment : Environment) (arguments : List String) :
    Except UsageNotice Invocation := do
  let read ← OptionsRead.ofArguments CommandName.common .empty arguments
  let options ← read.reading.settled
  match read.others with
  | [] => .error (if options.isEmpty then .nothingGiven else .missingCommand)
  | word :: rest =>
    match CommandName.ofWord? word, read.isClosed with
    | none, _ => .error .unknownCommand
    -- Behind two dashes a word is no command any more.
    | some _, true => .error .unknownArgument
    | some .help, false => .error (helpNotice rest)
    | some name, false => ofCommand environment (options.has .verbose) name rest

end Invocation

end IndexAudit
