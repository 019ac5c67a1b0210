import CrossAsm.Entries
import CrossAsm.Memory.Buffer
import CrossAsm.Total

/-! ROM banks: regions that are opened one at a time in a bank and kept apart in it. -/

namespace CrossAsm

/-- A numbered bank. -/
structure Bank where
  /-- Its number. -/
  number : Nat
  /-- The most bytes its regions may take. -/
  maxsize : Option Nat
  /-- The regions that are closed, in the order they were opened. -/
  closed : List Buffer := []
  /-- The open region, opened after all the others. -/
  current : Option Buffer := none

namespace Bank

/-- All regions in the order they were opened. -/
def regions (bank : Bank) : List Buffer :=
  bank.closed ++ bank.current.toList

/-- The first closed region that shares an address with `[start, stop)`. -/
def overlapping (bank : Bank) (start stop : Nat) : Option Buffer :=
  bank.closed.find? fun region => start < region.stop && region.org < stop

/-- The bytes that all regions take together. -/
def used (bank : Bank) : Nat :=
  total (bank.regions.map Buffer.extent)

/-- Writes bytes into reserved space of a region, given by its place among the regions. -/
def writeAt (bank : Bank) (region offset : Nat) (bytes : List UInt8) : Bank :=
  if region < bank.closed.length then
    { bank with closed := bank.closed.modify region (·.writeAt offset bytes) }
  else
    { bank with current := bank.current.map (·.writeAt offset bytes) }

end Bank

/-- The place of a reserved run of bytes; it stays the same when its region is closed. -/
structure Slot where
  /-- The number of the bank. -/
  bank : Nat
  /-- The place of the region among those of the bank. -/
  region : Nat
  /-- The offset of the first byte in the region. -/
  offset : Nat
  deriving DecidableEq

/-- All banks, in the order of their first use. -/
structure Rom where
  /-- The banks under their numbers. -/
  banks : List (Nat × Bank) := []
  /-- The number of the current bank. -/
  current : Nat := 0
  /-- The size of banks that are used for the first time. -/
  banksize : Option Nat := none
  /-- The fill of regions opened from now on. -/
  padding : Padding := .default

/-- A step on the banks; one that fails may leave its mark. -/
abbrev RomStep : Type → Type := EStateM Error Rom

namespace Rom

/-- Puts a bank in its place. -/
def setBank (bank : Bank) : RomStep Unit :=
  modify fun rom => { rom with banks := Entries.insert bank.number bank rom.banks }

/-- The current bank, made on its first use. -/
def currentBank : RomStep Bank := do
  let rom ← get
  match Entries.get? rom.current rom.banks with
  | some bank => return bank
  | none =>
    let bank : Bank := { number := rom.current, maxsize := rom.banksize }
    setBank bank
    return bank

/-- Makes a bank the current one, and sets its size if one is given. -/
def select (number : Nat) (maxsize : Option Nat) : RomStep Unit := do
  modify fun rom => { rom with current := number }
  let bank ← currentBank
  if maxsize.isSome then setBank { bank with maxsize } else return ()

/-- Sets the size of banks made from now on. -/
def setBanksize (size : Nat) : RomStep Unit :=
  modify fun rom => { rom with banksize := some size }

/-- Sets the fill of the open region and of regions opened later. -/
def setPadding (padding : Padding) : RomStep Unit := do
  modify fun rom => { rom with padding }
  let rom ← get
  match Entries.get? rom.current rom.banks with
  | some bank => setBank { bank with current := bank.current.map ({ · with padding }) }
  | none => return ()

/-- The error of two regions that share an address. -/
def overlapError (pos : Pos) (bank start stop : Nat) (other : Buffer) : Error :=
  .regionOverlap pos start (stop - 1) other.org (other.stop - 1) bank

/-- A sum of machine words, which stops at the greatest one. -/
def saturatingAdd (a b : Nat) : Nat :=
  min (a + b) 0xFFFFFFFFFFFFFFFF

/-- Opens a region in the current bank. -/
def openRegion (org : Nat) (maxsize : Option Nat) (pos : Pos) : RomStep Unit := do
  let bank ← currentBank
  let padding := (← get).padding
  -- A region without a size is checked as a single byte until it is closed.
  let stop := saturatingAdd org (max (maxsize.getD 1) 1)
  if bank.current.isSome then
    throw (.regionAlreadyOpen pos bank.number)
  else if addressSpace < stop then
    throw (.addressOutOfRange pos (stop - 1))
  else
    match bank.overlapping org stop with
    | some other => throw (overlapError pos bank.number org stop other)
    | none => setBank { bank with current := some { org, maxsize, padding } }

/-- Closes the open region of the current bank, whose final extent must fit into the bank. -/
def closeRegion (pos : Pos) : RomStep Unit := do
  let bank ← currentBank
  match bank.current with
  | none => throw (.noOpenRegion pos bank.number)
  | some region =>
    -- The region counts as closed even if its extent turns out not to fit.
    let after := { bank with closed := bank.closed ++ [region], current := none }
    setBank after
    match bank.overlapping region.org region.stop with
    | some other => throw (overlapError pos bank.number region.org region.stop other)
    | none =>
      match bank.maxsize with
      | some maxsize =>
        if maxsize < after.used then
          throw (.bankOverflow pos bank.number maxsize)
        else
          return ()
      | none => return ()

/-- Closes the open regions of the banks of the given numbers. -/
def closeEach (pos : Pos) : List Nat → RomStep Unit
  | [] => return ()
  | number :: others => do
    modify fun rom => { rom with current := number }
    closeRegion pos
    closeEach pos others

/-- Closes whatever is still open in any bank. -/
def closeAll (pos : Pos) : RomStep Unit := do
  closeEach pos (((← get).banks.filter fun (_, bank) => bank.current.isSome).map (·.1))

/-- Works on the open region of the current bank. -/
def onRegion {α : Type} (pos : Pos) (f : Buffer → Except Error (α × Buffer)) : RomStep α := do
  let bank ← currentBank
  match bank.current with
  | none => throw (.noOpenRegion pos bank.number)
  | some region =>
    match f region with
    | .error e => throw e
    | .ok (a, region) =>
      setBank { bank with current := some region }
      return a

/-- The address of the next byte of the open region. -/
def address (pos : Pos) : RomStep UInt16 :=
  onRegion pos fun region => return (← region.address pos, region)

/-- Reserves bytes at the cursor of the open region, and gives their place and address. -/
def reserve (size : Nat) (pos : Pos) : RomStep (Slot × UInt16) := do
  let (offset, address) ← onRegion pos fun region => do
    let address ← region.address pos
    let (offset, region) ← region.reserve size pos
    return ((offset, address), region)
  let bank ← currentBank
  return (⟨bank.number, bank.closed.length, offset⟩, address)

/-- Writes bytes at the cursor of the open region, and gives their offset. -/
def write (bytes : List UInt8) (pos : Pos) : RomStep Nat :=
  onRegion pos (·.write bytes pos)

/-- Moves the cursor of the open region on to a multiple. -/
def align (multiple : Nat) (pos : Pos) : RomStep Unit :=
  onRegion pos fun region => return ((), ← region.align multiple pos)

/-- Writes bytes into reserved space. -/
def writeAt (slot : Slot) (bytes : List UInt8) : RomStep Unit := do
  match Entries.get? slot.bank (← get).banks with
  | some bank => setBank (bank.writeAt slot.region slot.offset bytes)
  | none => return ()

end Rom

end CrossAsm
