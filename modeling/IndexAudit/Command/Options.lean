import IndexAudit.Command.Parameter

/-!
Options read from the arguments of a program.

An option with a value is not checked before something follows it that is known, so a fault in what
follows is told first.
-/

namespace IndexAudit

/-- What is to be said about the arguments of a program in place of running a command. -/
inductive UsageNotice where
  /-- The explanation that was asked for. -/
  | help
  /-- The version that was asked for. -/
  | version
  /-- No argument is given. -/
  | nothingGiven
  /-- No command is given. -/
  | missingCommand
  | unknownCommand
  | unknownArgument
  /-- An option is without its value, or has one that is not accepted. -/
  | invalidValue
  /-- An option that has no value is given one. -/
  | needlessValue
  /-- An option is given again. -/
  | repeatedOption
deriving Repr, DecidableEq

/-- Whether a notice was asked for, and is no complaint. -/
def UsageNotice.isAnswer : UsageNotice → Bool
  | .help | .version => true
  | _ => false

/-- The options that are given, the latest first; one without a value has an empty one. -/
abbrev Options := List (Parameter × String)

namespace Options

/-- The value of an option that is given. -/
def value? (options : Options) (parameter : Parameter) : Option String :=
  options.lookup parameter

/-- Whether an option is given. -/
def has (options : Options) (parameter : Parameter) : Bool :=
  (options.value? parameter).isSome

/-- Options with one more, which must be new and have a value that is accepted. -/
def add (options : Options) (parameter : Parameter) (value : String) :
    Except UsageNotice Options :=
  if options.has parameter then .error .repeatedOption
  else if parameter.accepts value then .ok ((parameter, value) :: options)
  else .error .invalidValue

end Options

/-- The options that are read so far. -/
structure OptionReading where
  given : Options
  /-- The latest option, and its value if that has come, until something known follows. -/
  pending : Option (Parameter × Option String)
deriving Repr, DecidableEq

namespace OptionReading

/-- The reading in front of all arguments. -/
def empty : OptionReading :=
  ⟨[], none⟩

/-- The options with the latest one, which is checked now. -/
def settled (reading : OptionReading) : Except UsageNotice Options :=
  match reading.pending with
  | none => .ok reading.given
  | some (_, none) => .error .invalidValue
  | some (parameter, some value) => reading.given.add parameter value

/-- A reading that goes on with an option without a value. -/
def flag (reading : OptionReading) (parameter : Parameter) : Except UsageNotice OptionReading := do
  let options ← reading.settled
  match parameter with
  | .help => .error .help
  | .version => .error .version
  | _ => return ⟨← options.add parameter "", none⟩

/-- A reading that goes on with an option whose value is the next argument. -/
def awaiting (reading : OptionReading) (parameter : Parameter) :
    Except UsageNotice OptionReading := do
  return ⟨← reading.settled, some (parameter, none)⟩

/-- A reading that goes on with an option and its value in one argument. -/
def attached (reading : OptionReading) (parameter : Parameter) (value : List Char) :
    Except UsageNotice OptionReading := do
  let options ← reading.settled
  return ⟨← options.add parameter (String.ofList value), none⟩

/-- A reading that goes on with what stands behind two dashes. -/
def long (allowed : List Parameter) (reading : OptionReading) (text : List Char) :
    Except UsageNotice OptionReading :=
  let (name, behind) := text.span (· != '=')
  match allowed.find? (·.long.toList == name) with
  | none => .error .unknownArgument
  | some parameter =>
    match parameter.takesValue, behind with
    | true, [] => reading.awaiting parameter
    | true, _ :: value => reading.attached parameter value
    | false, [] => reading.flag parameter
    | false, _ :: _ => .error .needlessValue

/-- A reading that goes on with the letters behind one dash. -/
def letters (allowed : List Parameter) (reading : OptionReading) :
    List Char → Except UsageNotice OptionReading
  | [] => .ok reading
  | letter :: rest =>
    match allowed.find? (·.letter? == some letter) with
    | none => .error .unknownArgument
    | some parameter =>
      -- The letters behind an option with a value are that value.
      if parameter.takesValue then
        match rest with
        | [] => reading.awaiting parameter
        | '=' :: value => reading.attached parameter value
        | value => reading.attached parameter value
      else do letters allowed (← reading.flag parameter) rest

/-- A reading that goes on with a word, if that is a value the latest option waits for. -/
def word? (reading : OptionReading) (word : String) : Option OptionReading :=
  match reading.pending with
  | some (parameter, none) => some { reading with pending := some (parameter, some word) }
  | _ => none

end OptionReading

/-- Options, and the arguments from the first one on that belongs to none. -/
structure OptionsRead where
  reading : OptionReading
  /-- Whether two dashes stand in front of the other arguments, so none of them is an option. -/
  isClosed : Bool
  others : List String
deriving Repr, DecidableEq

namespace OptionsRead

/-- Reads options up to the first argument that belongs to none. -/
def ofArguments (allowed : List Parameter) (reading : OptionReading) :
    List String → Except UsageNotice OptionsRead
  | [] => .ok ⟨reading, false, []⟩
  | argument :: rest =>
    match argument.toList with
    | ['-', '-'] => .ok ⟨reading, true, rest⟩
    | '-' :: '-' :: text => do ofArguments allowed (← reading.long allowed text) rest
    | '-' :: letter :: more => do
      ofArguments allowed (← reading.letters allowed (letter :: more)) rest
    | _ =>
      -- A word is taken only while an option waits for its value.
      match reading.word? argument with
      | some next => ofArguments allowed next rest
      | none => .ok ⟨reading, false, argument :: rest⟩

end OptionsRead

end IndexAudit
