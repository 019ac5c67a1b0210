import CrossAsm.Image
import CrossAsm.Layout.Deferred
import CrossAsm.Memory.Ram

/-! Layout: one walk gives every label and variable its address and reserves all space; what waits
for an address that comes later is written afterwards. -/

namespace CrossAsm

/-- The state of layout. -/
structure Layout where
  /-- The banks. -/
  rom : Rom := {}
  /-- The map of RAM. -/
  ram : Ram := .whole
  /-- The open window for variables, both ends included. -/
  window : Option (Nat × Nat) := none
  /-- The addresses of labels and variables. -/
  addresses : Addresses := []
  /-- The addresses of labels alone. -/
  labels : Addresses := []
  /-- The variables in RAM so far. -/
  placed : List Placement := []
  /-- The variables in ROM so far. -/
  data : List Placement := []
  /-- The interrupt vectors so far, under their names. -/
  vectors : Addresses := []
  /-- What waits for an address, in the order it was met. -/
  pending : List Deferred := []

/-- A step of layout. -/
abbrev LayoutStep : Type → Type := EStateM Error Layout

namespace Layout

/-- The most rounds, the walk included. -/
def maxRounds : Nat := 16

/-- Runs a step on the banks. -/
def onRom {α : Type} (step : RomStep α) : LayoutStep α := fun state =>
  match step state.rom with
  | .ok a rom => .ok a { state with rom }
  | .error e rom => .error e { state with rom }

/-- Runs a question that may fail. -/
def ask {α : Type} : Except Error α → LayoutStep α
  | .ok a => return a
  | .error e => throw e

/-- Binds a name; binding it again to another address is an error. -/
def bind (name : String) (address : UInt16) (pos : Pos) : LayoutStep Unit := do
  -- The same name at the same address is no conflict.
  let previous := Entries.get? name (← get).addresses
  modify fun state => { state with addresses := Entries.insert name address state.addresses }
  match previous with
  | some previous =>
    if previous = address then return () else throw (.duplicateLabel pos name previous address)
  | none => return ()

/-- Does what completes an item. -/
def complete : Completion → LayoutStep Unit
  | .write slot bytes => onRom (Rom.writeAt slot bytes)
  | .vector kind address =>
    modify fun state => { state with vectors := Entries.insert kind.name address state.vectors }

/-- Completes an item, or lets it wait while a symbol of it is unbound. -/
def retry (session : Session) (item : Deferred) : LayoutStep Unit := do
  match ← ask (item.attempt session (← get).addresses) with
  | some completion => complete completion
  | none => modify fun state => { state with pending := state.pending ++ [item] }

/-- A label takes the address of the next byte. -/
def label (l : Label) : LayoutStep Unit := do
  let address ← onRom (Rom.address l.pos)
  bind l.name address l.pos
  modify fun state => { state with labels := Entries.insert l.name address state.labels }

/-- An instruction takes the next bytes. -/
def instruction (session : Session) (line : Instruction) : LayoutStep Unit := do
  match line.mode with
  | none => throw (.unstructured line.pos line.render)
  | some mode =>
    -- The mode fixes the length, so the space is known before the operand is.
    let (slot, pc) ← onRom (Rom.reserve mode.length line.pos)
    retry session (.instruction line mode slot pc)

/-- A variable with initial contents takes the next bytes. -/
def initialized (session : Session) (var : Variable) (size : Nat) : LayoutStep Unit := do
  let (slot, address) ← onRom (Rom.reserve size var.pos)
  bind var.key address var.pos
  modify fun state => { state with data := state.data ++ [⟨var.key, address, size⟩] }
  if Word.memory ≤ size then
    -- There are no contents of this size, though the space for them may have been found.
    throw (.addressOutOfRange var.pos (address.toNat + size - 1))
  else
    retry session (.data var size slot)

/-- The address that a variable is given. -/
def fixedAddress (var : Variable) (e : Expr) : LayoutStep UInt16 := do
  match ← ask ((← get).addresses.eval e var.pos) with
  | none => throw (.notAConstant var.pos e.render)
  | some value =>
    if 0 ≤ value.toInt ∧ value.toInt < 0x10000 then
      return UInt16.ofNat value.toInt.toNat
    else
      throw (.addressOutOfRange var.pos value.toUInt64.toNat)

/-- The first free place in the open window. -/
def freeAddress (var : Variable) (size : Nat) : LayoutStep UInt16 := do
  match (← get).window with
  | none => throw (.noRamRegion var.pos var.key)
  | some (start, stop) =>
    match (← get).ram.place start stop size with
    | none => throw (.ramOverflow var.pos var.key size)
    | some (address, ram) =>
      modify fun state => { state with ram }
      return UInt16.ofNat address

/-- A variable without initial contents lies where it says, or else in the open window. -/
def uninitialized (var : Variable) (size : Nat) : LayoutStep Unit := do
  let address ← match var.address with
    | some e => fixedAddress var e
    | none => freeAddress var size
  bind var.key address var.pos
  modify fun state => { state with placed := state.placed ++ [⟨var.key, address, size⟩] }

/-- A variable, which must have a size. -/
def variableOf (session : Session) (var : Variable) : LayoutStep Unit := do
  match var.size with
  | none => throw (.unstructured var.pos var.render)
  | some size => if var.init.isSome then initialized session var size else uninitialized var size

/-- Opens a window for variables, which must lie in the address space. -/
def openWindow (address : Nat) (maxsize : Option Nat) (pos : Pos) : LayoutStep Unit := do
  -- A window of no size still takes a byte.
  let stop := match maxsize with
    | some size => Rom.saturatingAdd address (max size 1) - 1
    | none => addressSpace - 1
  if addressSpace ≤ address ∨ addressSpace ≤ stop then
    throw (.addressOutOfRange pos (max stop address))
  else
    modify fun state => { state with window := some (address, stop) }

/-- A directive. -/
def directive (session : Session) (d : Directive) (pos : Pos) : LayoutStep Unit := do
  match d with
  | .romOrg address maxsize => onRom (Rom.openRegion address maxsize pos)
  | .romEnd => onRom (Rom.closeRegion pos)
  | .romBank number maxsize => onRom (Rom.select number maxsize)
  | .romBanksize size => onRom (Rom.setBanksize size)
  | .ramOrg address maxsize => openWindow address maxsize pos
  | .ramEnd => modify fun state => { state with window := none }
  | .setPad padding => onRom (Rom.setPadding padding)
  | .align multiple => onRom (Rom.align multiple pos)
  | .incbin _ bytes =>
    let _ ← onRom (Rom.write bytes pos)
    return ()
  | .vector kind name => retry session (.vector kind name pos)

/-- One statement of the walk. -/
def stmt (session : Session) (s : Stmt) : LayoutStep Unit :=
  match s with
  | .item (.label l) => label l
  | .item (.instruction line) => instruction session line
  | .item (.var var) => variableOf session var
  | .item (.directive d pos) => directive session d pos
  | .item (.fileBegin _) | .item (.fileEnd _) => return ()
  | s => throw (.unstructured (s.pos?.getD {}) s.render)

/-- The walk over all statements. -/
def walk (session : Session) : List Stmt → LayoutStep Unit
  | [] => return ()
  | first :: others => do
    stmt session first
    walk session others

/-- Tries items in order. -/
def retryAll (session : Session) : List Deferred → LayoutStep Unit
  | [] => return ()
  | item :: others => do
    retry session item
    retryAll session others

/-- Tries again what waits, for the rounds that are left after a number of them. -/
def settle (session : Session) (count : Nat) : Nat → LayoutStep Unit
  | 0 => throw (.tooManyRounds .layout count)
  | left + 1 => do
    let pending := (← get).pending
    if pending.isEmpty then
      return ()
    else
      -- Items that still wait queue up again in the same order.
      modify fun state => { state with pending := [] }
      retryAll session pending
      let waiting := (← get).pending
      if waiting.length = pending.length then
        throw (.noProgress .layout (count + 1) (waiting.map Deferred.located))
      else
        settle session (count + 1) left

/-- A region with its final bytes. -/
def regionImage (region : Buffer) : RegionImage :=
  ⟨region.org, region.maxsize, region.finish, region.padding⟩

/-- A bank with the final bytes of its regions. -/
def bankImage (bank : Bank) : BankImage :=
  ⟨bank.number, bank.maxsize, bank.regions.map regionImage⟩

/-- What layout has made. -/
def image (state : Layout) : Image :=
  { banks := state.rom.banks.map fun (_, bank) => bankImage bank
    labels := state.labels
    ram := state.placed
    data := state.data
    vectors := state.vectors }

/-- The walk, the closing of all regions, and the rounds after it. -/
def run (session : Session) (stmts : List Stmt) : LayoutStep Unit := do
  walk session stmts
  onRom (Rom.closeAll {})
  settle session 1 (maxRounds - 1)

end Layout

/-- Gives resolved statements their addresses and bytes. -/
def layout (session : Session) (stmts : List Stmt) : Except Error Image :=
  match Layout.run session stmts {} with
  | .ok () state => .ok state.image
  | .error e _ => .error e

end CrossAsm
