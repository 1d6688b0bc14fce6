import IndexAudit.Config.Environment

/-! How much a run reports of itself, and in what form. -/

namespace IndexAudit

/-- How much is reported, from the most to the least. -/
inductive LogLevel where
  | trace
  | debug
  | info
  | warn
  | error
deriving Repr, DecidableEq

/-- The form that reports take. -/
inductive LogFormat where
  | pretty
  | json
  | compact
deriving Repr, DecidableEq

namespace LogLevel

/-- The name of a level. -/
def name : LogLevel → String
  | .trace => "trace"
  | .debug => "debug"
  | .info => "info"
  | .warn => "warn"
  | .error => "error"

/-- The level of a name in lower case. -/
def ofName? (name : String) : Option LogLevel :=
  [trace, debug, info, warn, error].find? (·.name == name)

end LogLevel

namespace LogFormat

/-- The name of a format. -/
def name : LogFormat → String
  | .pretty => "pretty"
  | .json => "json"
  | .compact => "compact"

end LogFormat

namespace Environment

/-- The value of a variable in lower case. -/
def lowered? (environment : Environment) (name : String) : Option String :=
  (environment.value? name).map lower

/-- Whether the environment asks for everything that helps to find faults. -/
def isDebugging (environment : Environment) : Bool :=
  (environment.lowered? "IDXLINT_DEBUG").any ["true", "1", "yes"].contains

/-- How much is reported: what is asked for by name, else much when debugging and else little. -/
def logLevel (environment : Environment) (verbose : Bool) : LogLevel :=
  match (environment.lowered? "IDXLINT_LOG_LEVEL").bind LogLevel.ofName? with
  | some level => level
  | none => if verbose || environment.isDebugging then .debug else .warn

/-- The form that reports take; unless another one is asked for, each has a line. -/
def logFormat (environment : Environment) : LogFormat :=
  match environment.lowered? "IDXLINT_LOG_FORMAT" with
  | some "pretty" => .pretty
  | some "json" => .json
  | _ => .compact

end Environment

end IndexAudit
