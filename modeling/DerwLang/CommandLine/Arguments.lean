/-
**Arguments of the command line.**

Arguments are read from left to right into items: switches, switches with a value, and paths. A switch is written
with its long name after two hyphens or with its letter after one, letters without a value can share a hyphen,
and a value follows its switch or is attached to it. After two hyphens alone every argument is a path. The first
item at which the reading stops decides what becomes of the whole line.
-/

import DerwLang.Compiler.Target

namespace DerwLang.CommandLine

/-! ### Switches -/

/-- The switches of the commands. -/
inductive Switch
  | verbose
  | help
  | version
  | target
  | output
  | emitTree
  | dumpTokens
  | checkOnly
deriving DecidableEq, Repr

namespace Switch

/-- The long name of a switch. -/
def name : Switch → String
  | .verbose => "verbose"
  | .help => "help"
  | .version => "version"
  | .target => "target"
  | .output => "output"
  | .emitTree => "emit-ast"
  | .dumpTokens => "dump-tokens"
  | .checkOnly => "check"

/-- The letter of a switch that has one. -/
def letter? : Switch → Option Char
  | .verbose => some 'v'
  | .help => some 'h'
  | .version => some 'V'
  | .output => some 'o'
  | _ => none

/-- The switch comes with a value. -/
def takesValue : Switch → Bool
  | .target | .output => true
  | _ => false

/-- The switch can be given more than once. -/
def isRepeatable : Switch → Bool
  | .verbose => true
  | _ => false

end Switch

/-! ### Errors -/

/-- What is wrong with a command line. -/
inductive UsageError
  | missingCommand
  | unknownCommand (name : String)
  | unknownSwitch (argument : String)
  | missingValue (switch : Switch)
  | unexpectedValue (switch : Switch)
  | emptyValue
  | repeatedSwitch (switch : Switch)
  | unknownTarget (name : String)
deriving DecidableEq, Repr

/-- The wording of an error. -/
def UsageError.message : UsageError → String
  | .missingCommand => "a command is missing: compile, check or fmt"
  | .unknownCommand name => "unknown command '" ++ name ++ "'"
  | .unknownSwitch argument => "unexpected argument '" ++ argument ++ "'"
  | .missingValue switch => "a value is missing for '--" ++ switch.name ++ "'"
  | .unexpectedValue switch => "'--" ++ switch.name ++ "' takes no value"
  | .emptyValue => "a path cannot be empty"
  | .repeatedSwitch switch => "'--" ++ switch.name ++ "' is given more than once"
  | .unknownTarget name => Target.unknownMessage name

/-! ### Items -/

/-- What one argument says, or an argument together with its value. -/
inductive Item
  | flag (switch : Switch)
  | valued (switch : Switch) (value : String)
  | input (path : String)
  | fault (error : UsageError)
deriving DecidableEq, Repr

namespace Item

/-- The items of letters that share a hyphen, and the switch that still waits for its value. -/
def ofLetters (switches : List Switch) : List Char → List Item × Option Switch
  | [] => ([], none)
  | c :: rest =>
    match switches.find? (·.letter? == some c) with
    | none => ([.fault (.unknownSwitch ("-" ++ String.singleton c))], none)
    | some switch =>
      if !switch.takesValue then
        let (items, waiting) := ofLetters switches rest
        (.flag switch :: items, waiting)
      else
        match rest with
        | [] => ([], some switch)
        | '=' :: value => ([.valued switch (String.ofList value)], none)
        | value => ([.valued switch (String.ofList value)], none)

/-- The item of a long name, perhaps with a value after an equals sign, or the switch that waits for its value. -/
def ofName (switches : List Switch) (argument : List Char) : List Item × Option Switch :=
  let name := String.ofList (argument.takeWhile (· != '='))
  let value? := (argument.dropWhile (· != '=')).tail?.map String.ofList
  match switches.find? (·.name == name), value? with
  | none, _ => ([.fault (.unknownSwitch ("--" ++ name))], none)
  | some switch, none => if switch.takesValue then ([], some switch) else ([.flag switch], none)
  | some switch, some value =>
    if switch.takesValue then ([.valued switch value], none)
    else ([.fault (.unexpectedValue switch)], none)

/-- The argument has the form of a switch: a hyphen with something after it. -/
def isSwitch (argument : String) : Bool :=
  Text.startsWith argument "-" && argument != "-"

/-- The items of an argument in the form of a switch, and the switch that waits for its value. -/
def ofSwitch (switches : List Switch) (argument : String) : List Item × Option Switch :=
  match argument.toList with
  | '-' :: '-' :: name => ofName switches name
  | _ :: letters => ofLetters switches letters
  | [] => ([], none)

/-- The items of a line of arguments, the first of which may be the value that a switch waits for. -/
def ofArguments (switches : List Switch) : Option Switch → List String → List Item
  | none, [] => []
  | some switch, [] => [.fault (.missingValue switch)]
  | some switch, argument :: rest =>
    if isSwitch argument then [.fault (.missingValue switch)]
    else .valued switch argument :: ofArguments switches none rest
  | none, argument :: rest =>
    if argument == "--" then rest.map .input
    else if isSwitch argument then
      let (items, waiting) := ofSwitch switches argument
      items ++ ofArguments switches waiting rest
    else .input argument :: ofArguments switches none rest

end Item

/-! ### What a line gives -/

/-- What the items of a line give. -/
structure Given where
  inputs : List String := []
  flags : List Switch := []
  target? : Option Target := none
  output? : Option String := none

namespace Given

/-- A switch that is given now, and was not before unless it can be repeated. -/
def mark (given : Given) (switch : Switch) : Except UsageError Given :=
  if !switch.isRepeatable && given.flags.contains switch then .error (.repeatedSwitch switch)
  else .ok { given with flags := given.flags ++ [switch] }

/-- What is given with one more item. -/
def add (given : Given) : Item → Except UsageError Given
  | .fault error => .error error
  | .flag switch => given.mark switch
  | .input path =>
    if path.isEmpty then .error .emptyValue else .ok { given with inputs := given.inputs ++ [path] }
  | .valued .target name => do
    let target ← (Target.ofName? name).elim (.error (.unknownTarget name)) .ok
    (given.mark .target).map fun given => { given with target? := some target }
  | .valued switch value =>
    if value.isEmpty then .error .emptyValue
    else (given.mark switch).map fun given => { given with output? := some value }

/-- What the items give together, and nothing if help is asked for before anything is wrong. -/
def ofItems (given : Given) : List Item → Except UsageError (Option Given)
  | [] => .ok (some given)
  | .flag .help :: _ => .ok none
  | item :: items => do (← given.add item).ofItems items

end Given

/-! ### Commands -/

/-- How sources are compiled. -/
structure CompileOptions where
  inputs : List String
  target : Target
  outputDirectory? : Option String
  emitTree : Bool
  dumpTokens : Bool

/-- What is to be done with which sources. -/
inductive Command
  | compile (options : CompileOptions)
  | check (inputs : List String)
  | format (inputs : List String) (checkOnly : Bool)

/-- What a command line asks for. -/
inductive Request
  | run (command : Command)
  | showVersion
  | showHelp

/-- The names of the commands. -/
inductive CommandName
  | compile
  | check
  | format
deriving DecidableEq, Repr

namespace CommandName

/-- The command with the given name. -/
def ofText? (name : String) : Option CommandName :=
  match name with
  | "compile" => some .compile
  | "check" => some .check
  | "fmt" => some .format
  | _ => none

/-- The switches that a command has. -/
def switches : CommandName → List Switch
  | .compile => [.verbose, .help, .target, .output, .emitTree, .dumpTokens]
  | .check => [.verbose, .help]
  | .format => [.verbose, .help, .checkOnly]

/-- The command with what is given for it. -/
def command (name : CommandName) (given : Given) : Command :=
  match name with
  | .compile => .compile {
      inputs := given.inputs
      target := given.target?.getD .typeScript
      outputDirectory? := given.output?
      emitTree := given.flags.contains .emitTree
      dumpTokens := given.flags.contains .dumpTokens }
  | .check => .check given.inputs
  | .format => .format given.inputs (given.flags.contains .checkOnly)

end CommandName

namespace Request

/-- The request of a command with its arguments. -/
def ofCommand (name : CommandName) (arguments : List String) : Except UsageError Request := do
  match ← Given.ofItems {} (Item.ofArguments name.switches none arguments) with
  | none => return .showHelp
  | some given => return .run (name.command given)

/-- The request for help, with the program as a whole or with one command. No command has commands of its own. -/
def ofHelp : List String → Except UsageError Request
  | [] => .ok .showHelp
  | name :: rest =>
    if name != "help" && (CommandName.ofText? name).isNone then .error (.unknownCommand name)
    else
      match rest with
      | [] => .ok .showHelp
      | further :: _ => .error (.unknownCommand further)

/-- The switches that stand before the command. -/
def switches : List Switch :=
  [.verbose, .help, .version]

/-- What the switches in front of the command ask for, if they decide the request. -/
def decide? : List Item → Option (Except UsageError Request)
  | [] => none
  | .flag .help :: _ => some (.ok .showHelp)
  | .flag .version :: _ => some (.ok .showVersion)
  | .fault error :: _ => some (.error error)
  | _ :: items => decide? items

/-- The request of a command line. -/
def ofArguments : List String → Except UsageError Request
  | [] => .error .missingCommand
  | argument :: rest =>
    if argument == "--" then .error .missingCommand
    else if Item.isSwitch argument then
      match decide? (Item.ofSwitch switches argument).1 with
      | some request => request
      | none => ofArguments rest
    else if argument == "help" then ofHelp rest
    else
      match CommandName.ofText? argument with
      | some name => ofCommand name rest
      | none => .error (.unknownCommand argument)

end Request

end DerwLang.CommandLine
