import CrossAsm.Layout
import CrossAsm.Proofs.Layout.Pieces

/-! What one statement of the walk does, said once: each way in which it can succeed, with the state
that it leaves. What the walk keeps is proved from these ways, one by one. -/

namespace CrossAsm

/-- The request that a directive makes to the banks, unless it puts bytes there. -/
def Directive.request? (pos : Pos) : Directive → Option Rom.Request
  | .romOrg address maxsize => some (.openRegion address maxsize pos)
  | .romEnd => some (.closeRegion pos)
  | .romBank number maxsize => some (.select number maxsize)
  | .romBanksize size => some (.setBanksize size)
  | .setPad padding => some (.setPadding padding)
  | .align multiple => some (.align multiple pos)
  | .ramOrg .. | .ramEnd | .incbin .. | .vector .. => none

/-- The window for variables that is open behind a statement. -/
def Stmt.windowBehind (window : Option (Nat × Nat)) : Stmt → Option (Nat × Nat)
  | .item (.directive (.ramOrg address (some size)) _) => some (address, address + max size 1 - 1)
  | .item (.directive (.ramOrg address none) _) => some (address, addressSpace - 1)
  | .item (.directive .ramEnd _) => none
  | _ => window

namespace Layout

variable {session : Session} {state state' : Layout}

/-! ### Questions, bindings and attempts -/

/-- A step on the banks changes nothing else. -/
@[simp]
theorem onRom_eq_ok {α : Type} {step : RomStep α} {a : α} :
    onRom step state = .ok a state' ↔
      ∃ rom, step state.rom = .ok a rom ∧ state' = { state with rom } := by
  -- The step is run on the banks and they are put back, whatever comes of it.
  unfold onRom
  cases ran : step state.rom with
  | ok b rom =>
    simp only [EStateM.Result.ok.injEq]
    constructor
    · rintro ⟨rfl, rfl⟩
      exact ⟨rom, ⟨rfl, rfl⟩, rfl⟩
    · rintro ⟨rom, ⟨rfl, rfl⟩, rfl⟩
      exact ⟨rfl, rfl⟩
  | error => simp

/-- A question changes nothing. -/
@[simp]
theorem ask_eq_ok {α : Type} {question : Except Error α} {a : α} :
    ask question state = .ok a state' ↔ question = .ok a ∧ state = state' := by
  -- An answer is returned with the state as it is; a failure returns none.
  cases question <;> simp [ask]

/-- The addresses with one more name bound. -/
def bound (name : String) (address : UInt16) (state : Layout) : Addresses :=
  Entries.insert name address state.addresses

/-- A name is bound to an address if it has no other. -/
theorem bind_run {name : String} {address : UInt16} {pos : Pos}
    (ran : bind name address pos state = .ok () state') :
    state.addresses.ExtendedBy (bound name address state) ∧
      state' = { state with addresses := bound name address state } := by
  simp only [bind, bind_eq_ok, get_eq_ok, modify_eq_ok] at ran
  obtain ⟨_, _, ⟨rfl, rfl⟩, _, _, rfl, ran⟩ := ran
  -- A name that is bound already must have the same address.
  cases before : Entries.get? name state.addresses with
  | none =>
    simp only [before, pure_eq_ok, true_and] at ran
    subst ran
    refine ⟨.insert fun previous bound => ?_, rfl⟩
    rw [before] at bound
    cases bound
  | some previous =>
    simp only [before] at ran
    split at ran
    · rename_i same
      rw [pure_eq_ok] at ran
      obtain ⟨-, rfl⟩ := ran
      refine ⟨.insert fun other bound => ?_, rfl⟩
      rw [before, Option.some.injEq] at bound
      rw [← bound, same]
    · simp at ran

/-- A name that is bound has the address. -/
theorem get?_bound (name : String) (address : UInt16) (state : Layout) :
    Entries.get? name (bound name address state) = some address := by
  -- What was entered last is found first.
  rw [bound, Entries.get?_insert, if_pos rfl]

/-- What may come of an attempt at an item: it waits behind the others, or its bytes are written, or
the vector is recorded. -/
inductive Tried (session : Session) (item : Deferred) (state : Layout) : Layout → Prop
  | waits : Tried session item state { state with pending := state.pending ++ [item] }
  | written {slot : Slot} {bytes : List UInt8} {rom : Rom}
    (done : item.attempt session state.addresses = .ok (some (.write slot bytes)))
    (wrote : Rom.writeAt slot bytes state.rom = .ok () rom) :
    Tried session item state { state with rom }
  | recorded {kind : VectorKind} {address : UInt16}
    (done : item.attempt session state.addresses = .ok (some (.vector kind address))) :
    Tried session item state
      { state with vectors := Entries.insert kind.name address state.vectors }

/-- An item is tried in one of the three ways. -/
theorem retry_tried {item : Deferred} (ran : retry session item state = .ok () state') :
    Tried session item state state' := by
  simp only [retry, bind_eq_ok, get_eq_ok, ask_eq_ok] at ran
  obtain ⟨_, _, ⟨rfl, rfl⟩, found, _, ⟨tried, rfl⟩, ran⟩ := ran
  -- Only an attempt that finds an address missing lets the item wait.
  cases found with
  | none =>
    rw [modify_eq_ok] at ran
    exact ran ▸ .waits
  | some completion =>
    cases completion with
    | write slot bytes =>
      simp only [complete, onRom_eq_ok] at ran
      obtain ⟨rom, wrote, rfl⟩ := ran
      exact .written tried wrote
    | vector kind address =>
      simp only [complete, modify_eq_ok] at ran
      exact ran ▸ .recorded tried

/-- The parts of the state that no attempt changes. -/
structure Rests (state state' : Layout) : Prop where
  /-- Addresses stay. -/
  addresses : state'.addresses = state.addresses
  /-- Labels stay. -/
  labels : state'.labels = state.labels
  /-- Variables in RAM stay. -/
  placed : state'.placed = state.placed
  /-- Variables in ROM stay. -/
  data : state'.data = state.data
  /-- The map of RAM stays. -/
  ram : state'.ram = state.ram
  /-- The window for variables stays. -/
  window : state'.window = state.window

/-- A change in the banks leaves them. -/
theorem rests_rom (state : Layout) (rom : Rom) : state.Rests { state with rom } :=
  ⟨rfl, rfl, rfl, rfl, rfl, rfl⟩

/-- Trying one thing after another leaves the same parts alone. -/
theorem Rests.trans {first second third : Layout} (early : first.Rests second)
    (late : second.Rests third) : first.Rests third :=
  ⟨late.addresses.trans early.addresses, late.labels.trans early.labels,
    late.placed.trans early.placed, late.data.trans early.data, late.ram.trans early.ram,
    late.window.trans early.window⟩

/-- Trying an item leaves addresses and variables alone. -/
theorem retry_rests {item : Deferred} (ran : retry session item state = .ok () state') :
    state.Rests state' := by
  -- Bytes go into the banks and vectors into their own table.
  cases retry_tried ran <;> exact ⟨rfl, rfl, rfl, rfl, rfl, rfl⟩

/-- What holds of the banks, and still does when bytes are filled in, holds when an item was tried. -/
theorem retry_rom {item : Deferred} {P : Rom → Prop}
    (ran : retry session item state = .ok () state') (stays : P state.rom)
    (writes : ∀ {slot bytes rom}, Rom.writeAt slot bytes state.rom = .ok () rom → P rom) :
    P state'.rom := by
  -- Bytes are filled in at most; the other ways of trying leave the banks.
  cases retry_tried ran with
  | written _ wrote => exact writes wrote
  | waits | recorded => exact stays

/-! ### Places of variables -/

/-- A value in the address space is the value of its address. -/
theorem ofNat_address {value : Int64} (least : 0 ≤ value.toInt) (less : value.toInt < 0x10000) :
    Int64.ofNat (UInt16.ofNat value.toInt.toNat).toNat = value := by
  -- Below the size of the address space neither of the two narrowings cuts anything off.
  have small : value.toInt.toNat < UInt16.size := by
    have size : UInt16.size = 0x10000 := rfl
    omega
  rw [UInt16.toNat_ofNat_of_lt' small, ← Int64.toInt_inj, Int64.toInt_ofNat_of_lt (by omega)]
  omega

/-- A fixed address is the value of its expression, and is found without a change. -/
theorem fixedAddress_run {var : Variable} {e : Expr} {address : UInt16}
    (ran : fixedAddress var e state = .ok address state') :
    state' = state ∧ state.addresses.eval e var.pos = .ok (some (Int64.ofNat address.toNat)) := by
  -- An address that is not known yet, or is out of range, is refused.
  simp only [fixedAddress, bind_eq_ok, get_eq_ok, ask_eq_ok] at ran
  obtain ⟨_, _, ⟨rfl, rfl⟩, value, _, ⟨known, rfl⟩, ran⟩ := ran
  cases value with
  | none => simp at ran
  | some value =>
    simp only at ran
    split at ran
    · rename_i range
      rw [pure_eq_ok] at ran
      refine ⟨ran.2.symm, ?_⟩
      rw [known, ← ran.1, ofNat_address range.1 range.2]
    · simp at ran

/-- A free address is the first place in the open window, and is entered in the map of RAM. -/
theorem freeAddress_run {var : Variable} {size : Nat} {address : UInt16}
    (ran : freeAddress var size state = .ok address state') :
    ∃ start stop place ram, state.window = some (start, stop) ∧
      state.ram.place start stop size = some (place, ram) ∧ address = UInt16.ofNat place ∧
      state' = { state with ram } := by
  -- There must be a window, and in it a gap that is wide enough.
  simp only [freeAddress, bind_eq_ok, get_eq_ok] at ran
  obtain ⟨_, _, ⟨rfl, rfl⟩, ran⟩ := ran
  cases isOpen : state.window with
  | none => simp [isOpen] at ran
  | some ends =>
    simp only [isOpen, bind_eq_ok, get_eq_ok] at ran
    obtain ⟨_, _, ⟨rfl, rfl⟩, ran⟩ := ran
    cases free : state.ram.place ends.1 ends.2 size with
    | none => simp [free] at ran
    | some result =>
      simp only [free, bind_eq_ok, modify_eq_ok, pure_eq_ok] at ran
      obtain ⟨_, _, rfl, rfl, rfl⟩ := ran
      exact ⟨ends.1, ends.2, result.1, result.2, rfl, free, rfl, by simp only [isOpen]⟩

/-- A window is opened as it is declared, since it lies in the address space. -/
theorem openWindow_run {address : Nat} {maxsize : Option Nat} {pos : Pos}
    (ran : openWindow address maxsize pos state = .ok () state') :
    address < addressSpace ∧ state' = { state with
      window := Stmt.windowBehind state.window (.item (.directive (.ramOrg address maxsize) pos)) } := by
  -- The end of the window is checked against the address space before it is opened.
  unfold openWindow at ran
  cases maxsize with
  | none =>
    simp only at ran
    split at ran
    · simp at ran
    · rw [modify_eq_ok] at ran
      exact ⟨by omega, ran.symm⟩
  | some size =>
    simp only at ran
    split at ran
    · simp at ran
    · rename_i within
      rw [modify_eq_ok] at ran
      refine ⟨by omega, ?_⟩
      -- A sum that stops at the greatest word is none that lies in the address space.
      have whole : Rom.saturatingAdd address (max size 1) = address + max size 1 := by
        simp only [Rom.saturatingAdd, addressSpace] at within ⊢
        omega
      rw [← ran, Stmt.windowBehind, whole]

/-! ### One statement -/

/-- What a statement of the walk does, with the state behind it. -/
inductive Step (session : Session) (state : Layout) : Stmt → Layout → Prop
  | begin (file : String) : Step session state (.item (.fileBegin file)) state
  | finish (file : String) : Step session state (.item (.fileEnd file)) state
  | label {l : Label} {address : UInt16} {rom : Rom}
    (asked : Rom.address l.pos state.rom = .ok address rom)
    (fresh : state.addresses.ExtendedBy (bound l.name address state)) :
    Step session state (.item (.label l))
      { state with rom
                   addresses := bound l.name address state
                   labels := Entries.insert l.name address state.labels }
  | instruction {line : Instruction} {mode : Mode} {slot : Slot} {pc : UInt16} {rom : Rom}
    {state' : Layout} (chosen : line.mode = some mode)
    (room : addressSpace + mode.length ≤ Word.count)
    (reserved : Rom.reserve mode.length line.pos state.rom = .ok (slot, pc) rom)
    (tried : retry session (.instruction line mode slot pc) { state with rom } = .ok () state') :
    Step session state (.item (.instruction line)) state'
  | filled {var : Variable} {size : Nat} {slot : Slot} {address : UInt16} {rom : Rom}
    {state' : Layout} (filled : var.init.isSome = true) (sized : var.size = some size)
    (room : addressSpace + size ≤ Word.count)
    (reserved : Rom.reserve size var.pos state.rom = .ok (slot, address) rom)
    (fresh : state.addresses.ExtendedBy (bound var.key address state))
    (tried : retry session (.data var size slot)
      { state with rom
                   addresses := bound var.key address state
                   data := state.data ++ [⟨var.key, address, size⟩] } = .ok () state') :
    Step session state (.item (.var var)) state'
  | fixed {var : Variable} {e : Expr} {size : Nat} {address : UInt16}
    (plain : ¬ var.init.isSome = true) (sized : var.size = some size)
    (given : var.address = some e)
    (known : state.addresses.eval e var.pos = .ok (some (Int64.ofNat address.toNat)))
    (fresh : state.addresses.ExtendedBy (bound var.key address state)) :
    Step session state (.item (.var var))
      { state with addresses := bound var.key address state
                   placed := state.placed ++ [⟨var.key, address, size⟩] }
  | free {var : Variable} {size start stop place : Nat} {ram : Ram}
    (plain : ¬ var.init.isSome = true) (sized : var.size = some size)
    (given : var.address = none) (isOpen : state.window = some (start, stop))
    (found : state.ram.place start stop size = some (place, ram))
    (fresh : state.addresses.ExtendedBy (bound var.key (UInt16.ofNat place) state)) :
    Step session state (.item (.var var))
      { state with ram
                   addresses := bound var.key (UInt16.ofNat place) state
                   placed := state.placed ++ [⟨var.key, UInt16.ofNat place, size⟩] }
  | request {d : Directive} {pos : Pos} {request : Rom.Request} {rom : Rom}
    (requested : d.request? pos = some request) (ran : request.step state.rom = .ok () rom) :
    Step session state (.item (.directive d pos)) { state with rom }
  | incbin {name : String} {bytes : List UInt8} {pos : Pos} {offset : Nat} {rom : Rom}
    (wrote : Rom.write bytes pos state.rom = .ok offset rom) :
    Step session state (.item (.directive (.incbin name bytes) pos)) { state with rom }
  | openWindow {address : Nat} {maxsize : Option Nat} {pos : Pos} (within : address < addressSpace) :
    Step session state (.item (.directive (.ramOrg address maxsize) pos))
      { state with window := Stmt.windowBehind state.window
                     (.item (.directive (.ramOrg address maxsize) pos)) }
  | closeWindow (pos : Pos) :
    Step session state (.item (.directive .ramEnd pos)) { state with window := none }
  | vector {kind : VectorKind} {name : String} {pos : Pos} {state' : Layout}
    (tried : retry session (.vector kind name pos) state = .ok () state') :
    Step session state (.item (.directive (.vector kind name) pos)) state'

/-- A variable is put where it belongs. -/
theorem variableOf_step {var : Variable} (ran : variableOf session var state = .ok () state') :
    Step session state (.item (.var var)) state' := by
  -- By whether there are contents, and then whether there is an address.
  unfold variableOf at ran
  cases sized : var.size with
  -- Without a size it would have been an error.
  | none => simp [sized] at ran
  | some size =>
    simp only [sized] at ran
    split at ran
    · -- Space is reserved, the name is bound, the record is made, and the contents are tried.
      rename_i filled
      simp only [initialized, bind_eq_ok, onRom_eq_ok, modify_eq_ok] at ran
      obtain ⟨⟨slot, address⟩, _, ⟨rom, reserved, rfl⟩, _, _, binding, _, _, rfl, ran⟩ := ran
      obtain ⟨fresh, rfl⟩ := bind_run binding
      split at ran
      · simp at ran
      · -- Contents that are held in memory end before the words do.
        rename_i held
        have room : addressSpace + size ≤ Word.count := by
          simp only [addressSpace, Word.count, Word.memory] at held ⊢
          omega
        exact .filled filled sized room reserved fresh ran
    · -- It has no contents, and so it is put into RAM.
      rename_i plain
      unfold uninitialized at ran
      -- Its address is given, or the next one that is free in the window.
      cases given : var.address with
      | some e =>
        simp only [given, bind_eq_ok, modify_eq_ok] at ran
        obtain ⟨address, _, chosen, _, _, binding, rfl⟩ := ran
        obtain ⟨rfl, known⟩ := fixedAddress_run chosen
        obtain ⟨fresh, rfl⟩ := bind_run binding
        exact .fixed plain sized given known fresh
      | none =>
        simp only [given, bind_eq_ok, modify_eq_ok] at ran
        obtain ⟨address, _, chosen, _, _, binding, rfl⟩ := ran
        obtain ⟨start, stop, place, ram, isOpen, found, rfl, rfl⟩ := freeAddress_run chosen
        obtain ⟨fresh, rfl⟩ := bind_run binding
        exact .free plain sized given isOpen found fresh

/-- A directive is carried out. -/
theorem directive_step {d : Directive} {pos : Pos}
    (ran : directive session d pos state = .ok () state') :
    Step session state (.item (.directive d pos)) state' := by
  -- Directive by directive; those that concern the banks are one kind of step.
  unfold directive at ran
  cases d with
  | romOrg | romEnd | romBank | romBanksize | setPad | align =>
    obtain ⟨rom, answered, rfl⟩ := onRom_eq_ok.1 ran
    exact .request rfl answered
  | ramOrg address maxsize =>
    obtain ⟨within, rfl⟩ := openWindow_run ran
    exact .openWindow within
  | ramEnd =>
    rw [modify_eq_ok] at ran
    exact ran ▸ .closeWindow pos
  | incbin name bytes =>
    simp only [bind_eq_ok, onRom_eq_ok, pure_eq_ok] at ran
    obtain ⟨offset, _, ⟨rom, wrote, rfl⟩, -, rfl⟩ := ran
    exact .incbin wrote
  | vector kind name => exact .vector ran

/-- A statement of the walk that succeeds does so in one of these ways. -/
theorem stmt_step {s : Stmt} (ran : stmt session s state = .ok () state') :
    Step session state s state' := by
  -- Structured statements are refused here, so only flat ones are left.
  unfold stmt at ran
  split at ran
  · simp only [label, bind_eq_ok, onRom_eq_ok, modify_eq_ok] at ran
    obtain ⟨address, _, ⟨rom, asked, rfl⟩, _, _, binding, rfl⟩ := ran
    obtain ⟨fresh, rfl⟩ := bind_run binding
    exact .label asked fresh
  · rename_i line
    unfold instruction at ran
    cases chosen : line.mode with
    | none => simp [chosen] at ran
    | some mode =>
      simp only [chosen, bind_eq_ok, onRom_eq_ok] at ran
      obtain ⟨⟨slot, pc⟩, _, ⟨rom, reserved, rfl⟩, ran⟩ := ran
      exact .instruction chosen (by cases mode <;> decide) reserved ran
  · exact variableOf_step ran
  · exact directive_step ran
  · rw [pure_eq_ok] at ran
    exact ran.2 ▸ .begin _
  · rw [pure_eq_ok] at ran
    exact ran.2 ▸ .finish _
  · simp at ran

end Layout

end CrossAsm
