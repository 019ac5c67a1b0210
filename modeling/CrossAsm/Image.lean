import CrossAsm.Padding

/-! Images: what layout makes of a program, and the bytes of its banks. -/

namespace CrossAsm

/-- A region with its final bytes. -/
structure RegionImage where
  /-- The address of the first byte. -/
  org : Nat
  /-- The most bytes the region could hold. -/
  maxsize : Option Nat
  /-- The bytes. -/
  bytes : List UInt8
  /-- The fill of the region and of the gap after it. -/
  padding : Padding

/-- The fill that follows the bytes of a region, its pattern carried on. -/
def RegionImage.fillAfter (region : RegionImage) (count : Nat) : List UInt8 :=
  (List.range' region.bytes.length count).map region.padding.byteAt

/-- A bank with its regions in the order they were opened. -/
structure BankImage where
  /-- The bank's number. -/
  number : Nat
  /-- The bank's size. -/
  maxsize : Option Nat
  /-- The regions. -/
  regions : List RegionImage

namespace BankImage

/-- The bytes that follow a region up to the end of the given ones, and the last region. -/
def bytesAfter (previous : RegionImage) : List RegionImage → List UInt8 × RegionImage
  | [] => ([], previous)
  | region :: others =>
    -- The gap after a region goes on with that region's own pattern.
    let gap := previous.fillAfter (region.org - (previous.org + previous.bytes.length))
    let (rest, last) := bytesAfter region others
    (gap ++ region.bytes ++ rest, last)

/-- The regions in the order of their addresses. -/
def sorted (bank : BankImage) : List RegionImage :=
  bank.regions.mergeSort fun a b => a.org ≤ b.org

/-- The bytes of the bank: its regions by address, gaps and the rest of the bank filled. -/
def bytes (bank : BankImage) : List UInt8 :=
  match bank.sorted with
  | [] => []
  | first :: others =>
    let (rest, last) := bytesAfter first others
    let content := first.bytes ++ rest
    content ++ last.fillAfter (bank.maxsize.getD 0 - content.length)

end BankImage

/-- A variable with its place. -/
structure Placement where
  /-- The variable's full name. -/
  name : String
  /-- Its address. -/
  address : UInt16
  /-- Its size in bytes. -/
  size : Nat
  deriving DecidableEq

/-- Everything layout makes of a program. -/
structure Image where
  /-- The banks in the order of their first use. -/
  banks : List BankImage := []
  /-- The addresses of labels, in the order they were first bound. -/
  labels : List (String × UInt16) := []
  /-- Variables without an initializer. -/
  ram : List Placement := []
  /-- Variables with an initializer, which lie in ROM. -/
  data : List Placement := []
  /-- The addresses of interrupt vectors. -/
  vectors : List (String × UInt16) := []

/-- The bytes of all banks in the order of their numbers. -/
def Image.bytes (image : Image) : List UInt8 :=
  (image.banks.mergeSort fun a b => a.number ≤ b.number).flatMap BankImage.bytes

end CrossAsm
