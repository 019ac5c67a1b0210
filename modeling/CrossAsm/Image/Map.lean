import CrossAsm.Image
import CrossAsm.Json

/-! The memory map of an image as JSON. -/

namespace CrossAsm

/-- An optional size. -/
def Json.ofSize (size : Option Nat) : Json :=
  match size with
  | some n => .number n
  | none => .null

/-- A region with its bytes as numbers. -/
def RegionImage.toJson (region : RegionImage) : Json :=
  .object [("org", .number region.org), ("maxsize", .ofSize region.maxsize),
    ("bytes", .array (region.bytes.map fun byte => .number byte.toNat))]

/-- A bank with its regions. -/
def BankImage.toJson (bank : BankImage) : Json :=
  .object [("number", .number bank.number), ("maxsize", .ofSize bank.maxsize),
    ("regions", .array (bank.regions.map RegionImage.toJson))]

/-- A placed variable. -/
def Placement.toJson (placement : Placement) : Json :=
  .object [("name", .string placement.name), ("address", .number placement.address.toNat),
    ("size", .number placement.size)]

/-- Named addresses. -/
def Json.ofAddresses (entries : List (String × UInt16)) : Json :=
  .object (entries.map fun (name, address) => (name, .number address.toNat))

/-- The whole memory map. -/
def Image.toJson (image : Image) : Json :=
  .object [("banks", .array (image.banks.map BankImage.toJson)),
    ("labels", .ofAddresses image.labels),
    ("ram", .array (image.ram.map Placement.toJson)),
    ("data", .array (image.data.map Placement.toJson)),
    ("vectors", .ofAddresses image.vectors)]

end CrossAsm
