import CrossAsm.Isa.Cpu
import CrossAsm.Text.Ascii

/-! The options of the command line. -/

namespace CrossAsm

/-- How much is logged. -/
inductive LogLevel where
  | error | warn | info | debug | trace
  deriving DecidableEq

namespace LogLevel

/-- The levels from the least talkative on. -/
def all : List LogLevel := [.error, .warn, .info, .debug, .trace]

/-- The level's name. -/
def name : LogLevel → String
  | .error => "error"
  | .warn => "warn"
  | .info => "info"
  | .debug => "debug"
  | .trace => "trace"

/-- The value of decimal digits, which may follow a plus sign. -/
def ordinal? (text : String) : Option Nat :=
  let digits := match text.toList with
    | '+' :: digits => digits
    | digits => digits
  if digits.isEmpty || !digits.all Char.isDigit then none
  else some (digits.foldl (fun value digit => 10 * value + (digit.toNat - '0'.toNat)) 0)

/-- Reads a level: its name in any case, or its number counting from one. -/
def parse? (text : String) : Option LogLevel :=
  match ordinal? text with
  | some ordinal => if ordinal = 0 then none else all[ordinal - 1]?
  | none => all.find? fun level => level.name = Text.lower text

end LogLevel

/-- What a command line asks for. -/
structure Options where
  /-- The source files in order. -/
  inputs : List String
  /-- The file the image goes to. -/
  output : String := "out.bin"
  /-- The target processor. -/
  cpu : Cpu := .nmos
  /-- The file the memory map goes to. -/
  map : Option String := none
  /-- Whether the listing is printed. -/
  verbose : Bool := false
  /-- How much is logged. -/
  logLevel : LogLevel := .warn

/-- An option that takes a value. -/
inductive Setting where
  | output | cpu | map | logLevel
  deriving DecidableEq

namespace Setting

/-- The option's long name. -/
def name : Setting → String
  | .output => "output"
  | .cpu => "cpu"
  | .map => "map"
  | .logLevel => "log-level"

/-- Reads a long name. -/
def parse? (name : String) : Option Setting :=
  [.output, .cpu, .map, .logLevel].find? fun setting => setting.name = name

end Setting

/-- What is wrong with a command line. -/
inductive UsageError where
  | unknownOption (name : String)
  | missingValue (option : String)
  | unexpectedValue (option : String)
  | repeated (option : String)
  | invalidValue (option value : String)
  | noInput
  deriving DecidableEq

/-- The text of a usage error. -/
def UsageError.message : UsageError → String
  | .unknownOption name => "unexpected argument " ++ name
  | .missingValue option => s!"--{option} needs a value"
  | .unexpectedValue option => s!"--{option} takes no value"
  | .repeated option => s!"--{option} cannot be used twice"
  | .invalidValue option value => s!"invalid value for {option}: {value}"
  | .noInput => "no input file"

/-- Why a command line is not carried out. -/
inductive Halt where
  | usage (e : UsageError)
  | help
  | version
  deriving DecidableEq

/-- The options read so far. -/
structure OptionDraft where
  /-- The source files. -/
  inputs : List String := []
  /-- The values of options that take one. -/
  settings : List (Setting × String) := []
  /-- Whether the listing is asked for. -/
  verbose : Bool := false

namespace OptionDraft

/-- Reads the name of a processor. -/
def cpu? (name : String) : Option Cpu :=
  match name with
  | "6502" => some .nmos
  | "65c02" => some .cmos
  | _ => none

/-- Whether an option may have a value; a path is never empty. -/
def isValid (value : String) : Setting → Bool
  | .output | .map => !value.isEmpty
  | .cpu => (cpu? value).isSome
  | .logLevel => (LogLevel.parse? value).isSome

/-- The value of an option. -/
def value? (draft : OptionDraft) (setting : Setting) : Option String :=
  draft.settings.lookup setting

/-- Gives an option its value, once. -/
def give (draft : OptionDraft) (setting : Setting) (value : String) : Except Halt OptionDraft :=
  if (draft.value? setting).isSome then .error (.usage (.repeated setting.name))
  else if isValid value setting then
    .ok { draft with settings := draft.settings ++ [(setting, value)] }
  else .error (.usage (.invalidValue setting.name value))

/-- Asks for the listing, once. -/
def listing (draft : OptionDraft) : Except Halt OptionDraft :=
  if draft.verbose then .error (.usage (.repeated "verbose"))
  else .ok { draft with verbose := true }

/-- Adds a source file. -/
def addInput (draft : OptionDraft) (path : String) : Except Halt OptionDraft :=
  if path.isEmpty then .error (.usage (.invalidValue "input" path))
  else .ok { draft with inputs := draft.inputs ++ [path] }

/-- A long option with its attached value; the result names an option that waits for its value. -/
def readLong (draft : OptionDraft) (name : String) (value : Option String) :
    Except Halt (OptionDraft × Option Setting) :=
  match Setting.parse? name, value with
  | some setting, some value => do
    return (← draft.give setting value, none)
  | some setting, none => .ok (draft, some setting)
  | none, value =>
    if name ≠ "verbose" ∧ name ≠ "help" ∧ name ≠ "version" then
      .error (.usage (.unknownOption ("--" ++ name)))
    else if value.isSome then .error (.usage (.unexpectedValue name))
    else if name = "help" then .error .help
    else if name = "version" then .error .version
    else do
      return (← draft.listing, none)

/-- A run of short options; what follows one that takes a value is the value, perhaps behind an
equals sign. -/
def readShort (draft : OptionDraft) : List Char → Except Halt (OptionDraft × Option Setting)
  | [] => .ok (draft, none)
  | 'v' :: rest => do
    readShort (← draft.listing) rest
  | 'h' :: _ => .error .help
  | 'V' :: _ => .error .version
  | 'o' :: [] => .ok (draft, some .output)
  | 'o' :: '=' :: value => do
    return (← draft.give .output (String.ofList value), none)
  | 'o' :: value => do
    return (← draft.give .output (String.ofList value), none)
  | c :: _ => .error (.usage (.unknownOption (String.ofList ['-', c])))

/-- The name and attached value of a long option. -/
def cutAtEquals (body : List Char) : String × Option String :=
  (String.ofList (body.takeWhile (· != '=')),
    match body.dropWhile (· != '=') with
    | _ :: value => some (String.ofList value)
    | [] => none)

/-- One argument, before the mark that ends the options. -/
def readArg (draft : OptionDraft) (arg : String) : Except Halt (OptionDraft × Option Setting) :=
  match arg.toList with
  | '-' :: '-' :: body =>
    let (name, value) := cutAtEquals body
    draft.readLong name value
  | '-' :: c :: rest => draft.readShort (c :: rest)
  | _ => do
    return (← draft.addInput arg, none)

/-- Whether an argument cannot be the value of the option before it. -/
def looksLikeOption (arg : String) : Bool :=
  match arg.toList with
  | '-' :: _ :: _ => true
  | _ => false

/-- All arguments, the first of them perhaps the value of an option that waits for one. -/
def readArgs (draft : OptionDraft) : Option Setting → List String → Except Halt OptionDraft
  | none, [] => .ok draft
  | some setting, [] => .error (.usage (.missingValue setting.name))
  | some setting, arg :: rest =>
    -- An option is never taken for a value.
    if looksLikeOption arg then .error (.usage (.missingValue setting.name))
    else do
      readArgs (← draft.give setting arg) none rest
  | none, arg :: rest =>
    -- After the mark every argument is a file.
    if arg = "--" then rest.foldlM addInput draft
    else do
      let (draft, waiting) ← draft.readArg arg
      readArgs draft waiting rest

/-- The options, with what was not given left at its default. -/
def finish (draft : OptionDraft) : Except Halt Options :=
  if draft.inputs.isEmpty then .error (.usage .noInput)
  else
    .ok {
      inputs := draft.inputs
      output := (draft.value? .output).getD "out.bin"
      cpu := ((draft.value? .cpu).bind cpu?).getD .nmos
      map := draft.value? .map
      verbose := draft.verbose
      logLevel := ((draft.value? .logLevel).bind LogLevel.parse?).getD .warn }

end OptionDraft

/-- Reads a command line. -/
def Options.parse (args : List String) : Except Halt Options := do
  (← OptionDraft.readArgs {} none args).finish

end CrossAsm
