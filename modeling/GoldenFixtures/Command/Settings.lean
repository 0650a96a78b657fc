import GoldenFixtures.Text.Blank

/-!
# Settings from the environment

`Settings.read` takes the log level and the log format from environment
variables, through any look-up of them.  `coloured` says whether
messages are coloured when the output is not a terminal.
-/

namespace GoldenFixtures.Command

/-- A look-up of environment variables. -/
abbrev Environment := String → Option String

/-- How log lines are written. -/
inductive LogFormat where
  | text
  | json
  deriving DecidableEq, Repr

/-- The word for a log format. -/
def LogFormat.name : LogFormat → String
  | text => "text"
  | json => "json"

/-- A word that names no log format, as it was compared: without white space
around it and in lower case. -/
structure UnknownFormat where
  word : String
  deriving DecidableEq, Repr

/-- The wording of an unknown log format. -/
def UnknownFormat.message (e : UnknownFormat) : String :=
  "unknown log format '" ++ e.word ++ "' (expected text or json)"

/-- The log format that a word names, letter case and white space around it
aside. -/
def LogFormat.ofWord (word : String) : Except UnknownFormat LogFormat :=
  let word := String.ofList ((Text.trim word.toList).map Char.toLower)
  if word = "text" then .ok .text
  else if word = "json" then .ok .json
  else .error ⟨word⟩

/-- The settings that all tools share. -/
structure Settings where
  logLevel : String
  logFormat : LogFormat
  deriving DecidableEq, Repr

namespace Settings

/-- The log level when none is set. -/
def defaultLevel : String := "warn"

/-- The wording of settings that cannot be read. -/
def errorMessage (e : UnknownFormat) : String :=
  "FIXTURES_LOG_FORMAT must be 'text' or 'json'.: " ++ e.message

/-- The variable of the log level. -/
def levelVariable : String := "FIXTURES_LOG_LEVEL"

/-- The variable of the log format. -/
def formatVariable : String := "FIXTURES_LOG_FORMAT"

/-- The variable that asks for colours. -/
def colourVariable : String := "CLICOLOR_FORCE"

/-- Every variable that the tools look up themselves. -/
def lookedUp : List String := [levelVariable, formatVariable, colourVariable]

/-- The settings of an environment.  A blank level counts as unset. -/
def read (environment : Environment) : Except UnknownFormat Settings := do
  let level :=
    match environment levelVariable with
    | some level => if (Text.trim level.toList).isEmpty then defaultLevel else level
    | none => defaultLevel
  let format ←
    match environment formatVariable with
    | some word => LogFormat.ofWord word
    | none => .ok .text
  return ⟨level, format⟩

end Settings

/-! ## Colours -/

/-- A colour or weight of a message. -/
inductive Style where
  | error
  | warning
  deriving DecidableEq, Repr

/-- Colours are on for output that is no terminal only if they are asked for. -/
def coloured (environment : Environment) : Bool :=
  match environment Settings.colourVariable with
  | some value => value != "0"
  | none => false

/-- A text in a style. -/
def Style.paint (style : Style) (colours : Bool) (text : String) : String :=
  if colours then
    let code :=
      match style with
      | error => "1;31"
      | warning => "33"
    "\x1b[" ++ code ++ "m" ++ text ++ "\x1b[0m"
  else text

end GoldenFixtures.Command
