/-! # Arguments

Reading the arguments of a program with subcommands. The options of the program itself may stand
before the subcommand or behind it; behind it they count more. Each option stands at most once on
either side. After a double dash nothing is an option.
-/

namespace LabelGrammar.CommandLine

inductive OptionType where
  | flag
  | value (accepts : String → Bool)

structure OptionSpec where
  name : String
  letter : Option Char
  type : OptionType
  about : String

structure CommandSpec where
  name : String
  about : String
  /-- The name of the argument that is no option, if there is one, and what it means. -/
  operand : Option (String × String)
  options : List OptionSpec

structure ProgramSpec where
  name : String
  version : String
  about : String
  options : List OptionSpec
  commands : List CommandSpec

inductive UsageError where
  | missingCommand
  | unknownCommand (name : String)
  | unexpectedArgument (argument : String)
  | missingValue (option : String)
  | unexpectedValue (option : String)
  | invalidValue (option value : String)
  | repeatedOption (option : String)
  | missingOperand (name : String)
  | missingOption (option : String)
  deriving DecidableEq, Repr

def UsageError.message : UsageError → String
  | .missingCommand => "a command is required"
  | .unknownCommand name => s!"unknown command `{name}`"
  | .unexpectedArgument argument => s!"unexpected argument `{argument}`"
  | .missingValue option => s!"option --{option} needs a value"
  | .unexpectedValue option => s!"option --{option} takes no value"
  | .invalidValue option value => s!"invalid value `{value}` for option --{option}"
  | .repeatedOption option => s!"option --{option} stands twice"
  | .missingOperand name => s!"argument <{name}> is required"
  | .missingOption option => s!"option --{option} is required"

inductive Stop where
  | usage (error : UsageError)
  | help (command : Option CommandSpec)
  | version

structure Reading where
  outer : List (String × String)
  command : Option CommandSpec
  options : List (String × String)
  operand : Option String
  pending : Option OptionSpec
  dashed : Bool

namespace Reading

def start : Reading := ⟨[], none, [], none, none, false⟩

def value? (r : Reading) (name : String) : Option String :=
  r.options.lookup name <|> r.outer.lookup name

def note (r : Reading) (name value : String) : Except Stop Reading :=
  if (r.options.lookup name).isSome then .error (.usage (.repeatedOption name))
  else .ok { r with options := (name, value) :: r.options, pending := none }

def noteValue (r : Reading) (o : OptionSpec) (value : String) : Except Stop Reading :=
  match o.type with
  | .flag => .error (.usage (.unexpectedValue o.name))
  | .value accepts =>
    if accepts value then r.note o.name value
    else .error (.usage (.invalidValue o.name value))

def noteName (r : Reading) (o : OptionSpec) : Except Stop Reading :=
  match o.type with
  | .flag => r.note o.name "true"
  | .value _ => .ok { r with pending := some o }

def allowed (p : ProgramSpec) (r : Reading) : List OptionSpec :=
  p.options ++ (r.command.map CommandSpec.options).getD []

/-- Reads an option by its name, which a value may follow behind an equals sign. -/
def readLong (p : ProgramSpec) (r : Reading) (cs : List Char) : Except Stop Reading :=
  let name := String.ofList (cs.takeWhile (· != '='))
  match (r.allowed p).find? (·.name == name), cs.dropWhile (· != '=') with
  | some o, _ :: value => r.noteValue o (String.ofList value)
  | some o, [] => r.noteName o
  | none, rest =>
    if name == "help" then
      .error (if rest.isEmpty then .help r.command else .usage (.unexpectedValue name))
    else if name == "version" && r.command.isNone then
      .error (if rest.isEmpty then .version else .usage (.unexpectedValue name))
    else .error (.usage (.unexpectedArgument ("--" ++ String.ofList cs)))

/-- Reads options by their letters. The value of the last may follow at once. -/
def readShort (p : ProgramSpec) (r : Reading) : List Char → Except Stop Reading
  | [] => .ok r
  | c :: cs =>
    match (r.allowed p).find? (·.letter == some c) with
    | some o =>
      match o.type, cs with
      | .flag, cs => do readShort p (← r.noteName o) cs
      | .value _, [] => r.noteName o
      | .value _, '=' :: value => r.noteValue o (String.ofList value)
      | .value _, value => r.noteValue o (String.ofList value)
    | none =>
      if c == 'h' then .error (.help r.command)
      else if c == 'V' && r.command.isNone then .error .version
      else .error (.usage (.unexpectedArgument (String.ofList ['-', c])))

def readOperand (r : Reading) (argument : String) : Except Stop Reading :=
  match r.command, r.operand with
  | some command, none =>
    if command.operand.isSome then .ok { r with operand := some argument }
    else .error (.usage (.unexpectedArgument argument))
  | _, _ => .error (.usage (.unexpectedArgument argument))

def isValue (argument : String) : Bool := argument == "-" || !argument.startsWith "-"

def readCommand (p : ProgramSpec) (r : Reading) (argument : String) : Except Stop Reading :=
  match p.commands.find? (·.name == argument) with
  | some command => .ok { r with outer := r.options, command := some command, options := [] }
  | none => .error (.usage (.unknownCommand argument))

def step (p : ProgramSpec) (r : Reading) (argument : String) : Except Stop Reading :=
  if r.dashed then r.readOperand argument
  else match r.pending with
    | some o =>
      if isValue argument then r.noteValue o argument
      else .error (.usage (.missingValue o.name))
    | none =>
      if argument == "--" then .ok { r with dashed := true }
      else match argument.toList with
        | '-' :: '-' :: cs => r.readLong p cs
        | '-' :: c :: cs => r.readShort p (c :: cs)
        | _ => if r.command.isNone then r.readCommand p argument else r.readOperand argument

def explained (p : ProgramSpec) : List String → Stop
  | [] => .help none
  | name :: names =>
    match p.commands.find? (·.name == name), names with
    | some command, [] => .help (some command)
    | some _, name :: _ => .usage (.unknownCommand name)
    | none, names =>
      if name == "help" && names.isEmpty then .help none else .usage (.unknownCommand name)

def awaitsCommand (r : Reading) : Bool := r.command.isNone && r.pending.isNone && !r.dashed

def readAll (p : ProgramSpec) : Reading → List String → Except Stop Reading
  | r, [] =>
    match r.pending with
    | some o => .error (.usage (.missingValue o.name))
    | none => .ok r
  | r, argument :: arguments =>
    if r.awaitsCommand && argument == "help" then .error (explained p arguments)
    else do readAll p (← r.step p argument) arguments

end Reading

def OptionSpec.helpLine (o : OptionSpec) : String :=
  let letter := match o.letter with
    | some c => String.ofList ['-', c] ++ ", "
    | none => "    "
  let value := match o.type with
    | .flag => ""
    | .value _ => " <" ++ o.name ++ ">"
  "  " ++ letter ++ "--" ++ o.name ++ value ++ "\n          " ++ o.about ++ "\n"

def CommandSpec.help (p : ProgramSpec) (c : CommandSpec) : String :=
  let operand := match c.operand with
    | some (name, _) => " <" ++ name ++ ">"
    | none => ""
  let operands := match c.operand with
    | some (name, about) => "\nArguments:\n  <" ++ name ++ ">  " ++ about ++ "\n"
    | none => ""
  c.about ++ "\n\nUsage: " ++ p.name ++ " " ++ c.name ++ " [OPTIONS]" ++ operand ++ "\n" ++
    operands ++ "\nOptions:\n" ++ String.join ((c.options ++ p.options).map OptionSpec.helpLine)

def ProgramSpec.help (p : ProgramSpec) : String :=
  let commandLine (c : CommandSpec) : String := "  " ++ c.name ++ "\n          " ++ c.about ++ "\n"
  p.about ++ "\n\nUsage: " ++ p.name ++ " [OPTIONS] <COMMAND>\n\nCommands:\n" ++
    String.join (p.commands.map commandLine) ++ "\nOptions:\n" ++
    String.join (p.options.map OptionSpec.helpLine)

end LabelGrammar.CommandLine
