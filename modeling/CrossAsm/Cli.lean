import CrossAsm.Cli.Options
import CrossAsm.Compile
import CrossAsm.Disk
import CrossAsm.Image.Listing
import CrossAsm.Image.Map

/-! The command line: source files in, an image and perhaps a memory map and a listing out. -/

namespace CrossAsm

namespace Source

/-- The file that a line includes, if it does. -/
def includedIn (line : List Char) : Option String :=
  -- A loader that hands its argument back shows which file is asked for.
  match Text.trimStart line with
  | '#' :: body =>
    match directive (fun name => .error (.io name)) {} body with
    | .error (.io name) => some name
    | _ => none
  | _ => none

/-- The files that a text includes. -/
def included (text : String) : List String :=
  (Text.lines text.toList).filterMap includedIn

end Source

namespace Cli

/-- What a run leaves behind on the terminal. -/
structure Outcome where
  /-- The exit code. -/
  code : UInt32
  /-- What is printed. -/
  stdout : String := ""
  /-- What is reported. -/
  stderr : String := ""

variable {m : Type → Type} [Monad m]

/-- The directory part of a path, with the slash that ends it. -/
def directoryOf (path : String) : String :=
  String.ofList (path.toList.reverse.dropWhile (· != '/')).reverse

/-- A path as seen from the directory of a file. -/
def besideFile (file path : String) : String :=
  if path.toList.head? = some '/' then path else directoryOf file ++ path

/-- A disk error as an error of the compilation. -/
def ofDisk {α : Type} : Except DiskError α → Except Error α :=
  Except.mapError fun e => .io e.message

/-- The text in bytes of UTF-8. -/
def decode (bytes : List UInt8) : Except Error String :=
  match String.fromUTF8? ⟨bytes.toArray⟩ with
  | some text => .ok text
  | none => .error (.io DiskError.notText.message)

/-- A loader that holds the files that a source file includes; their paths are relative to it. -/
def loader (disk : Disk m) (file text : String) : m Loader := do
  -- All files are read up front; one that cannot be read fails only where it is included.
  let contents ← (Source.included text).mapM fun name => do
    return (name, ← disk.read (besideFile file name))
  return fun name => ofDisk ((contents.lookup name).getD (.error .notFound))

/-- The pieces of a source file. -/
def readSource (disk : Disk m) (file : String) : ExceptT Error m (List Input) := do
  let bytes ← ofDisk (← disk.read file)
  let text ← decode bytes
  let load ← (loader disk file text : m Loader)
  Source.split load file text

/-- Writes a file. -/
def writeFile (disk : Disk m) (path : String) (bytes : List UInt8) : ExceptT Error m Unit := do
  ofDisk (← disk.write path bytes)

/-- Compiles source files, writes what is asked for, and gives what is to be printed. -/
def build (disk : Disk m) (options : Options) : ExceptT Error m String := do
  let inputs ← options.inputs.mapM (readSource disk)
  match compile inputs.flatten { cpu := options.cpu } with
  | .error e _ => throw e
  | .ok image session =>
    -- The first write that fails ends the run, and nothing is printed.
    writeFile disk options.output image.bytes
    match options.map with
    | some path => writeFile disk path image.toJson.render.toUTF8.toList
    | none => pure ()
    return if options.verbose then renderLines (image.listing session.cpu) else ""

/-- The word that leads a report, in red and bold. -/
def errorWord : String :=
  Text.Colour.red.on ++ Text.Colour.escape "1" ++ "error" ++ Text.Colour.off ++
    Text.Colour.escape "22"

/-- A report, ended by a newline. -/
def report (message : String) : String :=
  errorWord ++ ": " ++ message ++ "\n"

/-- The version of the command. -/
def version : String := "0.1.0"

/-- The help text of the command. -/
def help : String := renderLines [
  "Usage: crossasm [OPTIONS] <INPUT>...",
  "",
  "  <INPUT>...               source files, in order",
  "  -o, --output <FILE>      where the image goes (out.bin)",
  "      --cpu <CPU>          6502 or 65c02 (6502)",
  "      --map <FILE>         where a memory map goes",
  "  -v, --verbose            print a listing",
  "      --log-level <LEVEL>  error, warn, info, debug or trace (warn)",
  "  -h, --help               print this text",
  "  -V, --version            print the version"]

/-- Carries out a command line. -/
def run (disk : Disk m) (args : List String) : m Outcome := do
  match Options.parse args with
  | .error .help => return { code := 0, stdout := help }
  | .error .version => return { code := 0, stdout := s!"crossasm {version}\n" }
  | .error (.usage e) => return { code := 2, stderr := report e.message }
  | .ok options =>
    match ← (build disk options).run with
    | .ok text => return { code := 0, stdout := text }
    | .error e => return { code := 1, stderr := report e.message }

end Cli

end CrossAsm
