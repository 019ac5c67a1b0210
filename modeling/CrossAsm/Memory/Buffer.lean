import CrossAsm.Error
import CrossAsm.Padding
import CrossAsm.Word

/-! Regions of ROM: bytes reserved one after another and written into the reserved space. -/

namespace CrossAsm

/-- The first address beyond the address space. -/
def addressSpace : Nat := 0x10000

/-- The bytes of one region from its origin on; a reserved byte is empty until it is written. -/
structure Buffer where
  /-- The address of the first byte. -/
  org : Nat
  /-- The most bytes the region may hold. -/
  maxsize : Option Nat
  /-- The fill of bytes that are never written. -/
  padding : Padding
  /-- The reserved bytes. -/
  data : List (Option UInt8) := []

namespace Buffer

/-- The number of bytes reserved. -/
def length (buffer : Buffer) : Nat :=
  buffer.data.length

/-- The address of the next byte. -/
def cursor (buffer : Buffer) : Nat :=
  buffer.org + buffer.length

/-- The next byte's address as the processor sees it; a region that ends the address space when it
is full has none. -/
def address (buffer : Buffer) (pos : Pos) : Except Error UInt16 :=
  if buffer.cursor < addressSpace then .ok (UInt16.ofNat buffer.cursor)
  else .error (.addressOutOfRange pos buffer.cursor)

/-- The bytes the region takes in its bank once it is filled up. -/
def extent (buffer : Buffer) : Nat :=
  max (buffer.maxsize.getD 0) buffer.length

/-- The first address after a region, which takes at least one byte. -/
def stop (buffer : Buffer) : Nat :=
  buffer.org + max buffer.extent 1

/-- Makes a region as long as an offset, and gives the offset that it had reached before. The region
is said to end before a given address. -/
def reserveUpTo (buffer : Buffer) (stop last : Nat) (pos : Pos) : Except Error (Nat × Buffer) :=
  match buffer.maxsize.filter (· < stop) with
  | some maxsize => .error (.regionOverflow pos buffer.org maxsize)
  | none =>
    if addressSpace < last then
      .error (.addressOutOfRange pos (last - 1))
    else if addressSpace < stop then
      -- No memory holds more bytes than there are addresses.
      .error (.addressOutOfRange pos (stop - 1))
    else
      let space := List.replicate (stop - buffer.length) none
      .ok (buffer.length, { buffer with data := buffer.data.take stop ++ space })

/-- Reserves bytes at the cursor, and gives their offset. Words have room for that many behind the
cursor: they are in memory already, or make up the gap before a multiple. -/
def claim (buffer : Buffer) (size : Nat) (pos : Pos) : Except Error (Nat × Buffer) :=
  let stop := buffer.length + size
  buffer.reserveUpTo stop (buffer.org + stop) pos

/-- Reserves any number of bytes at the cursor, and gives their offset. Where they end is a sum of
words, so that space is given back if there are not as many words behind the cursor. -/
def reserve (buffer : Buffer) (size : Nat) (pos : Pos) : Except Error (Nat × Buffer) :=
  let stop := Word.add buffer.length size
  buffer.reserveUpTo stop (Word.add buffer.org stop) pos

/-- Writes bytes into reserved space; where there is none, nothing is written. -/
def writeAt (buffer : Buffer) (offset : Nat) (bytes : List UInt8) : Buffer :=
  if offset + bytes.length ≤ buffer.length then
    { buffer with
      data := buffer.data.take offset ++ bytes.map some ++ buffer.data.drop (offset + bytes.length) }
  else
    buffer

/-- Reserves space for bytes at the cursor and writes them there. -/
def write (buffer : Buffer) (bytes : List UInt8) (pos : Pos) : Except Error (Nat × Buffer) := do
  let (offset, buffer) ← buffer.claim bytes.length pos
  return (offset, buffer.writeAt offset bytes)

/-- Moves the cursor on to a multiple. -/
def align (buffer : Buffer) (multiple : Nat) (pos : Pos) : Except Error Buffer := do
  if multiple ≤ 1 then
    return buffer
  else
    -- A cursor on a multiple stays where it is.
    let gap := (multiple - buffer.cursor % multiple) % multiple
    return (← buffer.claim gap pos).2

/-- The final bytes, filled up to the size of the region. -/
def finish (buffer : Buffer) : List UInt8 :=
  (buffer.data.zipIdx.map fun (byte, offset) => byte.getD (buffer.padding.byteAt offset)) ++
  (List.range' buffer.length (buffer.extent - buffer.length)).map buffer.padding.byteAt

end Buffer

end CrossAsm
