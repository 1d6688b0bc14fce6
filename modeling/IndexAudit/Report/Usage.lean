import IndexAudit.Command.Options
import IndexAudit.Report.Program

/-! What the program says about how it is called. -/

namespace IndexAudit

namespace Program

/-- The commands and their options. -/
def usage : String :=
  String.join (["Usage: idxlint [OPTIONS] <COMMAND>", "", "Commands:",
    "  check     Check repositories for columns without a usable index",
    "  baseline  Record the current findings as the accepted baseline",
    "  version   Display version information",
    "  help      Print this message", "", "Options of check and baseline:",
    "  -r, --root <ROOT>          Project root to scan [default: .]",
    "  -c, --config <CONFIG>      Path to the config file [env: IDXLINT_CONFIG]", "",
    "Options of check:",
    "  -b, --baseline <BASELINE>  Baseline file to compare with",
    "  -f, --format <FORMAT>      Output format [default: text] [possible values: text, json]",
    "      --no-fail              Exit successfully even when findings are reported", "",
    "Options of baseline:",
    "  -o, --output <OUTPUT>      Where to write the baseline", "",
    "Options of all commands:",
    "  -v, --verbose              Enable debug logging on stderr",
    "  -h, --help                 Print help",
    "  -V, --version              Print version"].map Report.line)

end Program

namespace UsageNotice

/-- What is wrong with the arguments, for a notice that is a complaint. -/
def complaint? : UsageNotice → Option String
  | .help | .version | .nothingGiven => none
  | .missingCommand => some "a command is required but none was provided"
  | .unknownCommand => some "unrecognized command"
  | .unknownArgument => some "unexpected argument found"
  | .invalidValue => some "an option lacks its value or has an invalid one"
  | .needlessValue => some "an option that takes no value was given one"
  | .repeatedOption => some "an option cannot be used multiple times"

/-- A notice as it is printed. -/
def text (notice : UsageNotice) : String :=
  match notice with
  | .version => Report.line (Program.name ++ " " ++ Program.version)
  | _ =>
    match notice.complaint? with
    | none => Program.usage
    | some complaint => Report.line ("error: " ++ complaint) ++ Report.gap ++ Program.usage

end UsageNotice

end IndexAudit
