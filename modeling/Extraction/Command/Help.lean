import Extraction.Command.Arguments

/-! # Help pages

What the command writes when it is asked for help or for its version, and when
a command line cannot be used.
-/

namespace Extraction.Command

/-- The name of the command. -/
def commandName : String := "extmethods"

def versionText : String := commandName ++ " 0.1.0\n"

/-- The page that names the subcommands. -/
def overview : String :=
  "Typed views and catalog for metadata extraction methods\n\n" ++
  "Usage: " ++ commandName ++ " <COMMAND>\n\n" ++
  "Commands:\n" ++
  "  list    List the methods offered by all installed extractors\n" ++
  "  show    Show a single method and the extractor providing it\n" ++
  "  decode  Decode a method payload (JSON text) into a typed record\n" ++
  "  help    Print this message or the help of the given subcommand(s)\n\n" ++
  "Options:\n" ++
  "  -h, --help     Print help\n" ++
  "  -V, --version  Print version\n"

/-- The lines that describe the option of a configuration. -/
def configHelp : String := "  -c, --config <CONFIG>  Path to the extractors config file\n"

/-- The lines that describe the options all subcommands have. -/
def commonHelp : String :=
  "      --format <FORMAT>  Output format [default: json] [possible values: yaml, json]\n" ++
  "  -h, --help             Print help\n"

/-- The page of a subcommand. -/
def Subcommand.page : Subcommand → String
  | list =>
    "List the methods offered by all installed extractors\n\n" ++
    "Usage: " ++ commandName ++ " list [OPTIONS]\n\nOptions:\n" ++ configHelp ++ commonHelp
  | describe =>
    "Show a single method and the extractor providing it\n\n" ++
    "Usage: " ++ commandName ++ " show [OPTIONS] <METHOD>\n\n" ++
    "Arguments:\n  <METHOD>  Method name\n\nOptions:\n" ++ configHelp ++ commonHelp
  | decode =>
    "Decode a method payload (JSON text) into a typed record\n\n" ++
    "Usage: " ++ commandName ++ " decode [OPTIONS] [PAYLOAD]\n\n" ++
    "Arguments:\n  [PAYLOAD]  JSON payload; read from stdin when omitted or `-`\n\n" ++
    "Options:\n      --list             Payload is an array of methods\n" ++ commonHelp

/-- The page about asking for help. -/
def helpPage : String :=
  "Print this message or the help of the given subcommand(s)\n\n" ++
  "Usage: " ++ commandName ++ " help [COMMAND]...\n\n" ++
  "Arguments:\n  [COMMAND]...  Print help for the subcommand(s)\n"

def helpText : HelpTopic → String
  | .command => overview
  | .subcommand s => s.page
  | .help => helpPage

def UsageError.message : UsageError → String
  | missingSubcommand => "a subcommand is required"
  | unknownSubcommand name => "unrecognized subcommand '" ++ name ++ "'"
  | unexpected argument => "unexpected argument '" ++ argument ++ "' found"
  | repeated option => "the argument '--" ++ option ++ "' cannot be used multiple times"
  | missingValue option => "a value is required for '--" ++ option ++ "' but none was supplied"
  | badValue option value => "invalid value '" ++ value ++ "' for '--" ++ option ++ "'"
  | missingOperand => "a required argument was not provided"

end Extraction.Command
