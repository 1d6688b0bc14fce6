/-! The lines of a report for a terminal, with their colours and weights. -/

namespace IndexAudit

/-- A colour or weight that a text is shown in. -/
inductive Ink where
  | bold
  | dim
  | red
  | green
  | yellow
  | cyan
  | white
deriving Repr, DecidableEq

namespace Ink

/-- The number of the control sequence that starts a colour or weight. -/
def startCode : Ink → String
  | .bold => "1"
  | .dim => "2"
  | .red => "31"
  | .green => "32"
  | .yellow => "33"
  | .cyan => "36"
  | .white => "37"

/-- The number of the control sequence that goes back to the usual colour, or to usual text. -/
def endCode : Ink → String
  | .bold | .dim => "0"
  | .red | .green | .yellow | .cyan | .white => "39"

/-- The control sequence of a number. -/
def control (code : String) : String :=
  "\x1b[" ++ code ++ "m"

/-- A text shown in a colour or weight. -/
def paint (ink : Ink) (text : String) : String :=
  control ink.startCode ++ text ++ control ink.endCode

end Ink

namespace Report

/-- A text on a line of its own. -/
def line (text : String) : String :=
  text ++ "\n"

/-- The line between two parts of a report. -/
def gap : String :=
  line ""

/-- The title of a report, underlined by one mark for each byte of it. -/
def title (text : String) : String :=
  let rule := String.ofList (List.replicate text.utf8ByteSize '─')
  gap ++ line (Ink.cyan.paint (Ink.bold.paint text)) ++ line (Ink.dim.paint rule) ++ gap

/-- The heading of a part of a report. -/
def heading (text : String) : String :=
  line (Ink.white.paint (Ink.bold.paint text))

/-- A value with its name. -/
def entry (name value : String) : String :=
  line ("  " ++ Ink.dim.paint name ++ ": " ++ value)

/-- A number with its name. -/
def count (name : String) (number : Nat) : String :=
  entry name (toString number)

/-- An item of a list. -/
def item (text : String) : String :=
  line ("  " ++ Ink.dim.paint "•" ++ " " ++ text)

/-- A line with a mark in front, both in one colour. -/
def marked (mark : String) (ink : Ink) (text : String) : String :=
  line (Ink.bold.paint (ink.paint mark) ++ " " ++ ink.paint text)

/-- A line that tells that all is well. -/
def success (text : String) : String :=
  marked "✔" .green text

/-- A line that tells what is not well. -/
def warning (text : String) : String :=
  marked "⚠" .yellow text

/-- A line that tells why a command failed. -/
def failure (text : String) : String :=
  marked "✖" .red text

/-- A line beside the matter of a report. -/
def remark (text : String) : String :=
  line (Ink.dim.paint text)

end Report

end IndexAudit
