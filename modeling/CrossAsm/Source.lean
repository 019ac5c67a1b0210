import CrossAsm.Lexeme.Tokens
import CrossAsm.Parser.Stmt

/-! Source files: lines of code gathered into chunks, and the directives between them. -/

namespace CrossAsm

/-- Consecutive lines of code with no directive between them. -/
structure Chunk where
  /-- The name of the file. -/
  file : String
  /-- The row of the first line within the file. -/
  row : Nat
  /-- The lines, each ended by a newline. -/
  text : String
  deriving DecidableEq

/-- A piece of source. -/
inductive Input where
  | code (chunk : Chunk)
  | fileBegin (name : String)
  | fileEnd (name : String)
  | directive (d : Directive) (pos : Pos)
  deriving DecidableEq

/-- A way to read the files that a program includes. -/
abbrev Loader : Type := String → Except Error (List UInt8)

namespace Parse

/-- An address, size or bank number, which is never negative. -/
def unsigned : Parse Nat := do
  let pos ← here
  let value ← const
  if value.toInt < 0 then throw (.outOfRange pos value) else return value.toInt.toNat

/-- A number, and another one if a comma follows. -/
def unsignedPair : Parse (Nat × Option Nat) := do
  let first ← unsigned
  if ← eat .comma then return (first, some (← unsigned)) else return (first, none)

/-- The arguments of the directive of a name, which stands at a position. -/
def directiveArgs (load : Loader) (head : String) (pos : Pos) : Parse Directive := do
  match Text.lower head with
  | "rom.org" =>
    let (address, maxsize) ← unsignedPair
    return .romOrg address maxsize
  | "rom.end" => return .romEnd
  | "rom.bank" =>
    let (number, maxsize) ← unsignedPair
    return .romBank number maxsize
  | "rom.banksize" => return .romBanksize (← unsigned)
  | "ram.org" =>
    let (address, maxsize) ← unsignedPair
    return .ramOrg address maxsize
  | "ram.end" => return .ramEnd
  | "setpad" =>
    match ← accept? textLiteral with
    | some (content, _) => return .setPad (.ofText content)
    | none => return .setPad (.ofValue (← const))
  | "align" => return .align (← unsigned)
  | "incbin" =>
    let (name, _) ← require textLiteral
    match load name with
    | .ok bytes => return .incbin name bytes
    | .error e => throw e
  | "interrupt.start" => return .vector .start (← ident)
  | "interrupt.nmi" => return .vector .nmi (← ident)
  | "interrupt.irq" => return .vector .irq (← ident)
  | _ => throw (.unknownDirective pos ("#" ++ head))

/-- A directive, with nothing after its arguments. -/
def directive (load : Loader) (head : String) (pos : Pos) : Parse Directive := do
  let d ← directiveArgs load head pos
  skipNewlines
  match ← peek? with
  | none => return d
  | some _ => unexpected

end Parse

namespace Source

/-- Reads a directive line after its `#`: a word, and arguments after the white space behind it. -/
def directive (load : Loader) (pos : Pos) (body : List Char) : Except Error Directive :=
  let isWord (c : Char) : Bool := !Text.isBlank c
  let head := String.ofList (body.takeWhile isWord)
  let args := String.ofList ((body.dropWhile isWord).drop 1)
  match Parse.directive load head pos ⟨Token.ofText pos.file pos.row args, {}⟩ with
  | .ok d _ => .ok d
  | .error e _ => .error e

/-- Adds a line to the chunk being gathered, or starts one. -/
def addLine (file : String) (row : Nat) (line : List Char) (chunk : Option Chunk) : Chunk :=
  let chunk := chunk.getD ⟨file, row, ""⟩
  { chunk with text := chunk.text ++ String.ofList line ++ "\n" }

/-- The chunk being gathered, as a piece of source. -/
def flush (chunk : Option Chunk) : List Input :=
  (chunk.map Input.code).toList

/-- Splits lines from a row on, with the chunk gathered so far. -/
def splitLines (load : Loader) (file : String) (row : Nat) (chunk : Option Chunk) :
    List (List Char) → Except Error (List Input)
  | [] => .ok (flush chunk ++ [.fileEnd file])
  | line :: others =>
    match Text.trimStart line with
    | '#' :: body => do
      -- A directive ends the chunk before it.
      let pos : Pos := ⟨file, row, Text.byteLength line - Text.byteLength ('#' :: body)⟩
      let d ← directive load pos body
      let rest ← splitLines load file (row + 1) none others
      return flush chunk ++ .directive d pos :: rest
    | _ => splitLines load file (row + 1) (some (addLine file row line chunk)) others

/-- Splits a file: a line whose first character is `#` is a directive, and all else is code. -/
def split (load : Loader) (file text : String) : Except Error (List Input) := do
  let rest ← splitLines load file 0 none (Text.lines text.toList)
  return .fileBegin file :: rest

end Source

end CrossAsm
