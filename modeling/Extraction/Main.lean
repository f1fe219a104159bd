import Extraction.Command.Run
import Extraction.Search

/-! # The command

Looks at the files that the command line may need, runs the command on what was
seen, and writes what comes of it.
-/

namespace Extraction.Main

/-- What has been seen of the machine. -/
structure Observed where
  /-- Whether paths could be opened and read from. -/
  files : List (Path × Except FileError Unit) := []
  contents : List (Path × Except FileError Octets) := []
  environment : List (String × String) := []
  executableDirectory : Option Path := none

/-- The error of a system call by its code. -/
def fileErrorOf (code : UInt32) (text : String) : FileError :=
  if code = 2 then .notFound
  else if code = 20 then .notDirectory
  else if code = 21 then .isDirectory
  else if code = 36 then .nameTooLong
  else if code = 40 then .tooManyLinks
  else .other code.toNat text

def fileError : IO.Error → FileError
  | .alreadyExists _ code text => fileErrorOf code text
  | .otherError code text => fileErrorOf code text
  | .resourceBusy code text => fileErrorOf code text
  | .resourceVanished code text => fileErrorOf code text
  | .unsupportedOperation code text => fileErrorOf code text
  | .hardwareFault code text => fileErrorOf code text
  | .unsatisfiedConstraints code text => fileErrorOf code text
  | .illegalOperation code text => fileErrorOf code text
  | .protocolError code text => fileErrorOf code text
  | .timeExpired code text => fileErrorOf code text
  | .interrupted _ code text => fileErrorOf code text
  | .noFileOrDirectory _ code text => fileErrorOf code text
  | .invalidArgument _ code text => fileErrorOf code text
  | .permissionDenied _ code text => fileErrorOf code text
  | .resourceExhausted _ code text => fileErrorOf code text
  | .inappropriateType _ code text => fileErrorOf code text
  | .noSuchThing _ code text => fileErrorOf code text
  | .unexpectedEof => .other 0 "unexpected end of file"
  | .userError text => .other 0 text

/-- The error of looking at a path, if there is one. -/
def attempt {α : Type} (path : Path) (look : IO α) : IO (Except FileError α) := do
  if path.toList.contains '\x00' then return .error .zeroInName
  try
    return .ok (← look)
  catch e => return .error (fileError e)

/-- Opens a file and reads its first octet. -/
def touch (path : Path) : IO Unit := do
  let file ← IO.FS.Handle.mk path .read
  let _ ← file.read 1

def Observed.addFile (seen : Observed) (path : Path) : IO Observed := do
  let result ← attempt path (touch path)
  return { seen with files := (path, result) :: seen.files }

def Observed.addContent (seen : Observed) (path : Path) : IO Observed := do
  let seen ← seen.addFile path
  let result ← attempt path ((·.toList) <$> IO.FS.readBinFile path)
  return { seen with contents := (path, result) :: seen.contents }

/-- Whether a path leads to a file. One that must not be read is there all the same. -/
def Observed.isFile (seen : Observed) (path : Path) : Bool :=
  match seen.files.lookup path with
  | some (.ok _) => true
  | some (.error (.other code _)) => code == 13
  | _ => false

/-- What has been seen as a host. Whether a file may be executed cannot be seen, so every file on
the search path counts as a command here. -/
def Observed.host (seen : Observed) : Host where
  isFile := seen.isFile
  isPresent path :=
    seen.isFile path ||
      match seen.files.lookup path with
      | some (.error .isDirectory) => true
      | _ => false
  read path := (seen.contents.lookup path).getD (.error .notFound)
  isCommand name :=
    (Search.candidates (seen.environment.lookup "PATH") (seen.environment.lookup "HOME") name).any
      seen.isFile
  lookupVariable name := (seen.environment.lookup name).map Octets.ofString
  executableDirectory := seen.executableDirectory

/-- Looks at the files a configuration names. -/
def Observed.addConfig (seen : Observed) (config : Config) : IO Observed := do
  let mut seen := seen
  for e in config.extractors do
    seen ← seen.addFile (e.installPath config.installationPath)
    let commands := Search.candidates (seen.environment.lookup "PATH")
      (seen.environment.lookup "HOME") e.executable
    for path in commands do
      seen ← seen.addFile path
    for m in e.methods do
      seen ← seen.addContent (config.schemaPath m)
  return seen

/-- The directory part of a path. -/
def directoryOf (p : Path) : Path :=
  String.ofList (p.toList.reverse.dropWhile (· != '/')).tail.reverse

/-- The variables the command looks at. -/
def environment : IO (List (String × String)) := do
  let names := [Config.pathVariable, "XDG_CONFIG_HOME", "HOME", "PATH"]
  names.filterMapM fun name => return (← IO.getEnv name).map (name, ·)

/-- Writes the events of building a catalog to standard error. -/
def logEvents (events : List Catalog.Event) : IO Unit :=
  events.forM fun e => do
    let fields := e.fields.map fun (name, value) => " " ++ name ++ "=" ++ value
    IO.eprintln (e.level.text ++ " " ++ e.message ++ String.join fields)

/-- Looks at the configuration and at the files it names. -/
def observe (explicit : Option Path) : IO Observed := do
  let executable ← IO.appPath
  let mut seen : Observed :=
    { environment := ← environment, executableDirectory := some (directoryOf executable.toString) }
  for path in Config.possiblePaths seen.host explicit do
    seen ← seen.addContent path
  match Config.load seen.host explicit with
  | .error _ => return seen
  | .ok (config, _) =>
    seen ← seen.addConfig config
    logEvents (Catalog.build seen.host config).2
    return seen

/-- All octets of standard input. -/
partial def readAll (input : IO.FS.Stream) (read : ByteArray) : IO ByteArray := do
  let chunk ← input.read 65536
  if chunk.isEmpty then return read else readAll input (read ++ chunk)

/-- The host and the standard input a request needs. -/
def gather (arguments : List String) : IO (Observed × Octets) := do
  match Command.parse arguments with
  | .ok (.list explicit _) => return (← observe explicit, [])
  | .ok (.describe _ explicit _) => return (← observe explicit, [])
  | .ok (.decode operand _ _) =>
    if (operand.filter (· != "-")).isSome then return ({}, [])
    else return ({}, (← readAll (← IO.getStdin) ByteArray.empty).toList)
  | _ => return ({}, [])

end Extraction.Main

/-- Runs the command on the arguments it is given. -/
def main (arguments : List String) : IO UInt32 := do
  let (seen, input) ← Extraction.Main.gather arguments
  let outcome := Extraction.Command.run seen.host input arguments
  IO.print outcome.stdout
  match outcome with
  | .failure report => IO.eprint report.text
  | .usage e => IO.eprintln ("error: " ++ e.message)
  | _ => pure ()
  return outcome.exitCode.toUInt32
