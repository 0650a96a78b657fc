/-!
# Command lines

A tool's `Grammar` lists its options and says whether it takes paths.
`Grammar.parse` reads a command line.  An option's value may stand in the next
argument or behind an equals sign, for an option of one letter also right behind
the letter.  Two hyphens end the options.  No option may be given twice, and no
value or path may be empty.
-/

namespace GoldenFixtures.Command

/-- The options and arguments that a tool takes, besides those for its help
and its version. -/
structure Grammar where
  /-- The options without a value. -/
  flags : List String := []
  /-- The options with a value, each with its letter if it has one. -/
  values : List (String × Option Char) := []
  takesPaths : Bool := false

/-- What a command line asks for. -/
structure Arguments where
  flags : List String := []
  values : List (String × String) := []
  paths : List String := []
  deriving DecidableEq, Repr

/-- Why a tool is not run. -/
inductive Stop where
  | usage
  | help
  | version
  deriving DecidableEq, Repr

/-- What a single argument is. -/
inductive Argument where
  | path (path : String)
  | endOfOptions
  | flag (name : String)
  | value (name value : String)
  /-- An option whose value is the next argument. -/
  | pending (name : String)
  | stop (stop : Stop)
  deriving DecidableEq, Repr

namespace Arguments

/-- Adds an option without a value. -/
def addFlag (arguments : Arguments) (name : String) : Except Stop Arguments :=
  if arguments.flags.contains name then .error .usage
  else .ok { arguments with flags := arguments.flags ++ [name] }

/-- Adds an option with its value. -/
def addValue (arguments : Arguments) (name value : String) : Except Stop Arguments :=
  if value = "" ∨ (arguments.values.lookup name).isSome then .error .usage
  else .ok { arguments with values := arguments.values ++ [(name, value)] }

/-- Adds a path. -/
def addPath (arguments : Arguments) (takesPaths : Bool) (path : String) :
    Except Stop Arguments :=
  if path = "" ∨ takesPaths = false then .error .usage
  else .ok { arguments with paths := arguments.paths ++ [path] }

/-- The option without a value was given. -/
def has (arguments : Arguments) (name : String) : Bool := arguments.flags.contains name

/-- The value of an option. -/
def value? (arguments : Arguments) (name : String) : Option String :=
  arguments.values.lookup name

end Arguments

namespace Grammar

/-- The option that a word behind two hyphens names.  A value may follow an
equals sign. -/
def longOption (grammar : Grammar) (word : List Char) : Argument :=
  let name := String.ofList (word.takeWhile (· ≠ '='))
  let behind := word.dropWhile (· ≠ '=')
  if (grammar.values.lookup name).isSome then
    if behind.isEmpty then .pending name else .value name (String.ofList (behind.drop 1))
  else if !behind.isEmpty then .stop .usage
  else if grammar.flags.contains name then .flag name
  else if name = "help" then .stop .help
  else if name = "version" then .stop .version
  else .stop .usage

/-- The option that a letter behind a hyphen names.  A value may follow, with
an equals sign in front of it or not. -/
def shortOption (grammar : Grammar) (letter : Char) (behind : List Char) : Argument :=
  match grammar.values.find? fun option => option.2 == some letter with
  | some (name, _) =>
    match behind with
    | [] => .pending name
    | '=' :: value => .value name (String.ofList value)
    | value => .value name (String.ofList value)
  | none =>
    if letter = 'h' then .stop .help
    else if letter = 'V' then .stop .version
    else .stop .usage

/-- What a single argument is. -/
def classify (grammar : Grammar) (argument : String) : Argument :=
  match argument.toList with
  | ['-', '-'] => .endOfOptions
  | '-' :: '-' :: word => grammar.longOption word
  | '-' :: letter :: behind => grammar.shortOption letter behind
  | _ => .path argument

/-- An argument that cannot be the value of an option in front of it. -/
def isOption (argument : String) : Bool :=
  match argument.toList with
  | '-' :: _ :: _ => true
  | _ => false

/-- Reads the arguments that are left. -/
def parseFrom (grammar : Grammar) (before : Arguments) :
    List String → Except Stop Arguments
  | [] => .ok before
  | argument :: rest =>
    match grammar.classify argument with
    | .path path => do
      let arguments ← before.addPath grammar.takesPaths path
      parseFrom grammar arguments rest
    | .endOfOptions =>
      rest.foldlM (fun arguments path => arguments.addPath grammar.takesPaths path) before
    | .flag name => do
      let arguments ← before.addFlag name
      parseFrom grammar arguments rest
    | .value name value => do
      let arguments ← before.addValue name value
      parseFrom grammar arguments rest
    | .pending name =>
      match rest with
      | [] => .error .usage
      | value :: rest =>
        if isOption value then .error .usage
        else do
          let arguments ← before.addValue name value
          parseFrom grammar arguments rest
    | .stop stop => .error stop

/-- Reads a command line. -/
def parse (grammar : Grammar) (arguments : List String) : Except Stop Arguments :=
  grammar.parseFrom {} arguments

end Grammar

end GoldenFixtures.Command
