import Extraction.Path

/-! # Arguments of the command

A command line names a subcommand and gives its options and operands in any
order. Options are spelled out in full, are given once, and take the argument
after them or what follows an equals sign. After two hyphens all arguments are
operands. The first argument that does not fit makes the whole line unusable,
unless help was asked for before it.
-/

namespace Extraction.Command

/-- How the output is written. -/
inductive Format
  | json
  | yaml
deriving DecidableEq, Repr

def Format.ofName? (name : String) : Option Format :=
  if name = "json" then some .json else if name = "yaml" then some .yaml else none

/-- The subcommands. -/
inductive Subcommand
  | list
  | describe
  | decode
deriving DecidableEq, Repr

def Subcommand.ofName? (name : String) : Option Subcommand :=
  if name = "list" then some .list
  else if name = "show" then some .describe
  else if name = "decode" then some .decode
  else none

/-- What there are help pages about: the command, its subcommands, and the word for help itself. -/
inductive HelpTopic
  | command
  | subcommand (s : Subcommand)
  | help
deriving DecidableEq, Repr

def HelpTopic.ofName? (name : String) : Option HelpTopic :=
  if name = "help" then some .help else (Subcommand.ofName? name).map .subcommand

/-- What a command line asks for. -/
inductive Request
  | list (config : Option Path) (format : Format)
  | describe (method : String) (config : Option Path) (format : Format)
  | decode (payload : Option String) (isList : Bool) (format : Format)
  | help (topic : HelpTopic)
  | version
deriving DecidableEq, Repr

/-- Why a command line cannot be used. -/
inductive UsageError
  | missingSubcommand
  | unknownSubcommand (name : String)
  | unexpected (argument : String)
  | repeated (option : String)
  | missingValue (option : String)
  | badValue (option value : String)
  | missingOperand
deriving DecidableEq, Repr

/-- The options of the subcommands. -/
inductive Switch
  | config
  | format
  | list
  | help
deriving DecidableEq, Repr

/-- The options and the operand given so far. -/
structure Given where
  config : Option Path := none
  format : Option Format := none
  isList : Bool := false
  operand : Option String := none

namespace Subcommand

/-- Whether a subcommand reads the configuration. -/
def takesConfig : Subcommand → Bool
  | decode => false
  | _ => true

/-- Whether a subcommand takes an operand. -/
def takesOperand : Subcommand → Bool
  | list => false
  | _ => true

/-- The option of a name spelled out. -/
def longOption? (s : Subcommand) (name : String) : Option Switch :=
  if name = "config" && s.takesConfig then some .config
  else if name = "format" then some .format
  else if name = "list" && s == decode then some .list
  else if name = "help" then some .help
  else none

/-- The option of one letter. -/
def shortOption? (s : Subcommand) (letter : Char) : Option Switch :=
  if letter = 'c' && s.takesConfig then some .config
  else if letter = 'h' then some .help
  else none

end Subcommand

/-- What is given with a configuration's path, which is given once and not empty. -/
def Given.addConfig (g : Given) (value : String) : Except UsageError Given :=
  if g.config.isSome then .error (.repeated "config")
  else if value.isEmpty then .error (.badValue "config" value)
  else .ok { g with config := some value }

/-- What is given with a format, which is given once. -/
def Given.addFormat (g : Given) (value : String) : Except UsageError Given :=
  if g.format.isSome then .error (.repeated "format")
  else
    match Format.ofName? value with
    | some format => .ok { g with format := some format }
    | none => .error (.badValue "format" value)

/-- What is given with an operand, if the subcommand takes one and has none yet. -/
def Given.addOperand (g : Given) (s : Subcommand) (value : String) : Except UsageError Given :=
  if s.takesOperand && g.operand.isNone then .ok { g with operand := some value }
  else .error (.unexpected value)

/-- What is asked for in the end. -/
def Given.request (g : Given) (s : Subcommand) : Except UsageError Request :=
  let format := g.format.getD .json
  match s, g.operand with
  | .list, _ => .ok (.list g.config format)
  | .describe, some method => .ok (.describe method g.config format)
  | .describe, none => .error .missingOperand
  | .decode, payload => .ok (.decode payload g.isList format)

/-- Whether an argument looks like an option. A single hyphen does not. -/
def isOption (argument : String) : Bool :=
  match argument.toList with
  | '-' :: _ :: _ => true
  | _ => false

/-- The text before the first equals sign, and the text after it. -/
def splitAtEquals (s : List Char) : String × Option String :=
  match s.dropWhile (· != '=') with
  | [] => (String.ofList s, none)
  | _ :: value => (String.ofList (s.takeWhile (· != '=')), some (String.ofList value))

/-- An option and the value that is written in the same argument. -/
structure Written where
  option : Switch
  value : Option String

/-- The option an argument is written for. The value of one letter may follow it directly. -/
def Subcommand.readOption (s : Subcommand) (argument : String) : Except UsageError Written :=
  match argument.toList with
  | '-' :: '-' :: rest =>
    let (name, value) := splitAtEquals rest
    match s.longOption? name with
    | some option => .ok ⟨option, value⟩
    | none => .error (.unexpected argument)
  | '-' :: letter :: rest =>
    match s.shortOption? letter, rest with
    | some .help, _ => .ok ⟨.help, none⟩
    | some option, [] => .ok ⟨option, none⟩
    | some option, '=' :: value => .ok ⟨option, some (String.ofList value)⟩
    | some option, value => .ok ⟨option, some (String.ofList value)⟩
    | none, _ => .error (.unexpected argument)
  | _ => .error (.unexpected argument)

/-- Takes arguments that are all operands. -/
def Given.addOperands (g : Given) (s : Subcommand) : List String → Except UsageError Request
  | [] => g.request s
  | argument :: rest => do (← g.addOperand s argument).addOperands s rest

/-- Takes the arguments after the name of a subcommand. An option whose value is not written with
it takes the argument after it, unless that is an option itself. -/
def Given.addAll (s : Subcommand) (g : Given) : List String → Except UsageError Request
  | [] => g.request s
  | argument :: rest =>
    if argument = "--" then g.addOperands s rest
    else if !isOption argument then do addAll s (← g.addOperand s argument) rest
    else
      match s.readOption argument, rest with
      | .error e, _ => .error e
      | .ok ⟨.help, none⟩, _ => .ok (.help (.subcommand s))
      | .ok ⟨.help, some _⟩, _ => .error (.unexpected argument)
      | .ok ⟨.list, none⟩, rest =>
        if g.isList then .error (.repeated "list") else addAll s { g with isList := true } rest
      | .ok ⟨.list, some _⟩, _ => .error (.unexpected argument)
      | .ok ⟨.config, some value⟩, rest => do addAll s (← g.addConfig value) rest
      | .ok ⟨.format, some value⟩, rest => do addAll s (← g.addFormat value) rest
      | .ok ⟨.config, none⟩, value :: rest =>
        if isOption value then .error (.missingValue "config")
        else do addAll s (← g.addConfig value) rest
      | .ok ⟨.format, none⟩, value :: rest =>
        if isOption value then .error (.missingValue "format")
        else do addAll s (← g.addFormat value) rest
      | .ok ⟨.config, none⟩, [] => .error (.missingValue "config")
      | .ok ⟨.format, none⟩, [] => .error (.missingValue "format")

/-- What is asked for after the word for help. -/
def helpRequest : List String → Except UsageError Request
  | [] => .ok (.help .command)
  | name :: rest =>
    match HelpTopic.ofName? name, rest with
    | none, _ => .error (.unknownSubcommand name)
    | some topic, [] => .ok (.help topic)
    | some _, next :: _ => .error (.unknownSubcommand next)

/-- What a command line asks for. -/
def parse : List String → Except UsageError Request
  | [] => .error .missingSubcommand
  | first :: rest =>
    match first.toList with
    | ['-'] => .error (.unknownSubcommand first)
    | '-' :: letter :: more =>
      if first = "--help" || (letter = 'h') then .ok (.help .command)
      else if first = "--version" || (letter = 'V') then .ok .version
      else if letter = '-' && more.isEmpty then .error .missingSubcommand
      else .error (.unexpected first)
    | _ =>
      if first = "help" then helpRequest rest
      else
        match Subcommand.ofName? first with
        | some s => Given.addAll s {} rest
        | none => .error (.unknownSubcommand first)

end Extraction.Command
