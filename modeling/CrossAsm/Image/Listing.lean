import CrossAsm.Image
import CrossAsm.Isa.Decoded

/-! The listing of an image: every region disassembled, with variables and vectors after it. -/

namespace CrossAsm

/-- The length of the run of equal bytes that ends a list. -/
def tailRun (bytes : List UInt8) : Nat :=
  match bytes.getLast? with
  | none => 0
  | some last => (bytes.reverse.takeWhile (· == last)).length

/-- The number of bytes at the end that are shown as fill: a run of equal bytes, if there are at
least four of them. -/
def trailingFill (bytes : List UInt8) : Nat :=
  if 4 ≤ tailRun bytes then tailRun bytes else 0

namespace Listing

/-- What is shown for one stretch of bytes, and how many bytes that are. -/
structure Row where
  /-- The lines shown. -/
  lines : List String
  /-- The number of bytes they stand for. -/
  width : Nat

/-- An address as the start of a line shows it. -/
def addressField (address : Nat) : String :=
  "| 0x" ++ Text.hex 4 address ++ " : "

/-- The labels bound to an address. -/
def labelLines (image : Image) (address : UInt16) : List String :=
  (image.labels.filter fun (_, bound) => bound = address).map fun (name, _) =>
    "| " ++ Text.Colour.magenta.paint name ++ ":"

/-- The initialized variable at an address, the last of them if there are several. -/
def dataAt (image : Image) (address : UInt16) : Option Placement :=
  (image.data.filter fun placement => placement.address = address).getLast?

/-- The row at an address; `rest` is what is left of the region and `used` how much of it is not
fill. -/
def row (image : Image) (cpu : Cpu) (address : UInt16) (rest : List UInt8) (used : Nat) : Row :=
  let start := addressField address.toNat
  let labels := labelLines image address
  match dataAt image address with
  | some var =>
    let bytes := " ".intercalate ((rest.take var.size).map fun byte => Text.hex 2 byte.toNat)
    ⟨labels ++ [start ++ Text.Colour.blue.paint var.name ++ " " ++ bytes], max var.size 1⟩
  | none =>
    match Decoded.decode cpu (rest.take used) address with
    | some inst => ⟨labels ++ [start ++ inst.renderColoured], inst.length⟩
    | none => ⟨labels ++ [start ++ ".byte $" ++ Text.hex 2 (rest.headD 0).toNat], 1⟩

/-- The rows of a region from an address on, at most a number of them. -/
def rowsWithin (image : Image) (cpu : Cpu) : Nat → Nat → List UInt8 → Nat → List Row
  | 0, _, _, _ => []
  | count + 1, address, rest, used =>
    if used = 0 then []
    else
      let first := row image cpu (UInt16.ofNat address) rest used
      first ::
        rowsWithin image cpu count (address + first.width) (rest.drop first.width)
          (used - first.width)

/-- The rows of a region. Each row takes a byte, so there are no more rows than bytes. -/
def rows (image : Image) (cpu : Cpu) (region : RegionImage) : List Row :=
  let used := region.bytes.length - trailingFill region.bytes
  rowsWithin image cpu used region.org region.bytes used

/-- The lines of a region. -/
def regionLines (image : Image) (cpu : Cpu) (region : RegionImage) : List String :=
  let last := region.org + region.bytes.length - 1
  let range := "0x" ++ Text.hex 4 region.org ++ "-0x" ++ Text.hex 4 last
  let fill := trailingFill region.bytes
  ["+--------+ " ++ Text.Colour.green.paint range] ++
  (rows image cpu region).flatMap Row.lines ++
  (if 0 < fill then [s!"| ...    : {fill} byte(s) of fill"] else [])

/-- The lines of a bank. -/
def bankLines (image : Image) (cpu : Cpu) (bank : BankImage) : List String :=
  let size := match bank.maxsize with
    | some size => "0x" ++ Text.hex 1 size
    | none => "-"
  ("+-[Bank " ++ Text.Colour.cyan.paint (toString bank.number) ++ "]-+ size " ++ size) ::
    bank.regions.flatMap (regionLines image cpu)

/-- The rule under the head of a table. -/
def rule : String :=
  String.ofList (List.replicate 72 '-')

/-- The lines of the variables in RAM, by address. -/
def ramLines (image : Image) : List String :=
  if image.ram.isEmpty then []
  else
    ("+-[RAM]--+" ++ rule) ::
      (image.ram.mergeSort fun a b => a.address ≤ b.address).map fun var =>
        addressField var.address.toNat ++ Text.Colour.blue.paint var.name ++
          s!" ({var.size} byte(s))"

/-- A text filled up with spaces on the right. -/
def padRight (width : Nat) (text : String) : String :=
  text ++ String.ofList (List.replicate (width - text.length) ' ')

/-- The lines of the interrupt vectors. -/
def vectorLines (image : Image) : List String :=
  if image.vectors.isEmpty then []
  else
    ("+-[Vec]--+" ++ rule) ::
      image.vectors.map fun (kind, address) =>
        "| " ++ padRight 6 kind ++ " : 0x" ++ Text.hex 4 address.toNat

end Listing

/-- The lines of an image's listing. -/
def Image.listing (image : Image) (cpu : Cpu) : List String :=
  image.banks.flatMap (Listing.bankLines image cpu) ++ Listing.ramLines image ++
    Listing.vectorLines image

/-- The text of lines, each ended by a newline. -/
def renderLines (lines : List String) : String :=
  String.join (lines.map (· ++ "\n"))

end CrossAsm
