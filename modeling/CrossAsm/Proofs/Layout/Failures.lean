import CrossAsm.Layout
import CrossAsm.Proofs.Binding.Failures
import CrossAsm.Proofs.Resolve.Encodable

/-! How layout can fail. Statements that resolving has left over, a mode that the processor does not
have and an operand that is missing are errors of layout, but no list that resolving gives makes one
of them: whatever waits for an address is an instruction that can be encoded. -/

namespace CrossAsm

/-- Whether an instruction was not ready to be encoded. -/
def EncodeError.unready : EncodeError → Bool
  | .invalidMode .. | .missingOperand .. => true
  | _ => false

/-- Whether an error tells that a statement was not ready for layout. -/
def Error.unready : Error → Bool
  | .unstructured .. => true
  | .encode _ cause => cause.unready
  | _ => false

/-- An error that does not tell that a statement was not ready. -/
def Error.Expected (e : Error) : Prop :=
  e.unready = false

/-- An error that is met at once: it tells neither that a statement was not ready, nor that rounds
came to nothing. -/
def Error.Immediate (e : Error) : Prop :=
  (e.unready || e.kind = .convergence) = false

/-- An error that is met at once does not tell that a statement was not ready. -/
theorem Error.Immediate.expected {e : Error} (immediate : e.Immediate) : e.Expected :=
  (Bool.or_eq_false_iff.1 immediate).1

/-- An error that is met at once does not tell that rounds came to nothing. -/
theorem Error.Immediate.converges {e : Error} (immediate : e.Immediate) : e.kind ≠ .convergence :=
  of_decide_eq_false (Bool.or_eq_false_iff.1 immediate).2

/-- An error of binding is met at once. -/
theorem Error.OfBinding.immediate {e : Error} (ofBinding : e.OfBinding) : e.Immediate := by
  -- What is not ready is a structural error or one of layout, and rounds have errors of their own.
  rcases ofBinding with reference | ⟨pos, expr, rfl⟩
  · cases e <;> first | rfl | cases reference
  · rfl

/-! ### Banks and regions -/

namespace Buffer

/-- The next address may lie beyond the address space. -/
theorem address_fails (buffer : Buffer) (pos : Pos) :
    FailsOnly Error.Immediate (buffer.address pos) := by
  -- The only error is one about the address itself.
  unfold address
  split
  · exact .ok _
  · exact .error rfl

/-- There may be no room up to an offset. -/
theorem reserveUpTo_fails (buffer : Buffer) (stop last : Nat) (pos : Pos) :
    FailsOnly Error.Immediate (buffer.reserveUpTo stop last pos) := by
  -- The size of the region is looked at first, and then the address space.
  unfold reserveUpTo
  split
  · exact .error rfl
  · split
    · exact .error rfl
    · split
      · exact .error rfl
      · exact .ok _

/-- There may be no room for the gap. -/
theorem align_fails (buffer : Buffer) (multiple : Nat) (pos : Pos) :
    FailsOnly Error.Immediate (buffer.align multiple pos) := by
  -- A multiple of one asks for nothing, and any other one for the gap up to it.
  unfold align
  split
  · exact .ok _
  · exact (buffer.reserveUpTo_fails _ _ pos).bind fun _ _ => .ok _

end Buffer

namespace Rom

/-- Steps on the banks whose errors are met at once. -/
def Immediate {α : Type} (step : RomStep α) : Prop :=
  Guarded (fun _ => True) Error.Immediate step

/-- A change of the banks is no error. -/
theorem modify_immediate (f : Rom → Rom) : Immediate (modify f) :=
  .modify fun _ holds => holds

/-- Finding the current bank is no error. -/
theorem currentBank_immediate : Immediate currentBank := by
  -- The bank is there, or it is made on the spot.
  refine .read fun rom _ => ?_
  split
  · exact .pure _
  · exact (modify_immediate _).bind fun _ => .pure _

/-- Selecting a bank is no error. -/
theorem select_immediate (number : Nat) (maxsize : Option Nat) :
    Immediate (select number maxsize) := by
  -- A size is set only where one is given.
  refine (modify_immediate _).bind fun _ => currentBank_immediate.bind fun bank => ?_
  split
  · exact modify_immediate _
  · exact .pure _

/-- Setting the size of new banks is no error. -/
theorem setBanksize_immediate (size : Nat) : Immediate (setBanksize size) :=
  modify_immediate _

/-- Setting the fill is no error. -/
theorem setPadding_immediate (padding : Padding) : Immediate (setPadding padding) := by
  -- The fill is kept for later banks, and handed to the open region if there is one.
  refine (modify_immediate _).bind fun _ => .read fun rom _ => ?_
  split
  · exact modify_immediate _
  · exact .pure _

/-- A region may be opened where there is another one. -/
theorem openRegion_immediate (org : Nat) (maxsize : Option Nat) (pos : Pos) :
    Immediate (openRegion org maxsize pos) := by
  -- A region may be open already, the new one may leave the address space, or another is in its
  -- way.
  refine currentBank_immediate.bind fun bank => .read fun rom _ => ?_
  simp only
  split
  · exact .throw rfl
  · split
    · exact .throw rfl
    · split
      · exact .throw rfl
      · exact modify_immediate _

/-- A region may turn out not to fit when it is closed. -/
theorem closeRegion_immediate (pos : Pos) : Immediate (closeRegion pos) := by
  -- There may be no open region, or one that has grown into another one, or beyond the bank.
  refine currentBank_immediate.bind fun bank => ?_
  split
  · exact .throw rfl
  · refine (modify_immediate _).bind fun _ => ?_
    -- The region is closed before its extent is checked.
    split
    · exact .throw rfl
    · split
      · split
        · exact .throw rfl
        · exact .pure _
      · exact .pure _

/-- The same for some banks one after another. -/
theorem closeEach_immediate (pos : Pos) (numbers : List Nat) :
    Immediate (closeEach pos numbers) := by
  -- Bank by bank, each of which is selected and then closed.
  induction numbers with
  | nil => exact .pure _
  | cons number others ih =>
    exact (modify_immediate _).bind fun _ => (closeRegion_immediate pos).bind fun _ => ih

/-- The same for all banks. -/
theorem closeAll_immediate (pos : Pos) : Immediate (closeAll pos) :=
  .read fun _ _ => closeEach_immediate pos _

/-- Working on the open region fails if there is none, or as the work does. -/
theorem onRegion_immediate {α : Type} (pos : Pos) {f : Buffer → Except Error (α × Buffer)}
    (fails : ∀ region, FailsOnly Error.Immediate (f region)) : Immediate (onRegion pos f) := by
  -- Either there is no open region, or the work on it decides.
  refine currentBank_immediate.bind fun bank => ?_
  split
  · exact .throw rfl
  · rename_i region _
    split
    · rename_i e failed
      exact .throw (fails region e failed)
    · exact (modify_immediate _).bind fun _ => .pure _

/-- Asking for the next address. -/
theorem address_immediate (pos : Pos) : Immediate (address pos) :=
  onRegion_immediate pos fun region => (region.address_fails pos).bind fun _ _ => .ok _

/-- Reserving bytes. -/
theorem reserve_immediate (size : Nat) (pos : Pos) : Immediate (reserve size pos) := by
  -- The address is checked before the bytes are reserved.
  refine (onRegion_immediate pos fun region => ?_).bind fun _ =>
    currentBank_immediate.bind fun _ => .pure _
  exact (region.address_fails pos).bind fun _ _ =>
    (region.reserveUpTo_fails _ _ pos).bind fun _ _ => .ok _

/-- Writing bytes at the cursor. -/
theorem write_immediate (bytes : List UInt8) (pos : Pos) : Immediate (write bytes pos) :=
  onRegion_immediate pos fun region => (region.reserveUpTo_fails _ _ pos).bind fun _ _ => .ok _

/-- Moving the cursor on. -/
theorem align_immediate (multiple : Nat) (pos : Pos) : Immediate (align multiple pos) :=
  onRegion_immediate pos fun region => (region.align_fails multiple pos).bind fun _ _ => .ok _

/-- Writing into reserved space is no error. -/
theorem writeAt_immediate (slot : Slot) (bytes : List UInt8) : Immediate (writeAt slot bytes) := by
  -- Where the region is gone nothing is written.
  refine .read fun rom _ => ?_
  split
  · exact modify_immediate _
  · exact .pure _

end Rom

/-! ### What waits -/

/-- Evaluating an expression may divide by zero. -/
theorem Addresses.eval_fails {sort : Error → Prop} {pos : Pos}
    (evaluating : ∀ cause, sort (.eval pos cause)) (addresses : Addresses) (e : Expr) :
    FailsOnly sort (addresses.eval e pos) :=
  .mapError fun cause _ => evaluating cause

/-- The same for expressions in order. -/
theorem Addresses.evalAll_fails {sort : Error → Prop} {pos : Pos}
    (evaluating : ∀ cause, sort (.eval pos cause)) (addresses : Addresses) (exprs : List Expr) :
    FailsOnly sort (addresses.evalAll pos exprs) := by
  -- In order, up to the first value that is not known.
  induction exprs with
  | nil => exact .ok _
  | cons e others ih =>
    refine (addresses.eval_fails evaluating e).bind fun value _ => ?_
    cases value with
    | none => exact .ok _
    | some value => exact ih.map _

/-- The bytes behind an opcode may not reach their target, or not hold their value. -/
theorem operandBytes_fails (mode : Mode) (value : Int64) (pc : UInt16) :
    FailsOnly (EncodeError.unready · = false) (operandBytes mode value pc) := by
  -- Each mode checks its range and nothing else.
  unfold operandBytes
  simp only
  split
  · split
    · exact .ok _
    · exact .error rfl
  · split
    · exact .ok _
    · exact .error rfl
  · split
    · split
      · exact .ok _
      · exact .error rfl
    · split
      · exact .ok _
      · exact .error rfl

/-- A mnemonic in a mode that the processor has, with a value if one is needed, is ready to be
encoded. -/
theorem Cpu.encode_fails {cpu : Cpu} {op : Op} {mode : Mode} {value : Option Int64}
    (known : (cpu.opcode op mode).isSome) (given : 1 < mode.length → value.isSome) (pc : UInt16) :
    FailsOnly (EncodeError.unready · = false) (cpu.encode op mode value pc) := by
  -- The opcode is there; whether a value is needed depends on the length of the mode.
  obtain ⟨opcode, found⟩ := Option.isSome_iff_exists.1 known
  simp only [encode, found]
  -- An opcode alone needs no value.
  split
  · exact .ok _
  · rename_i long
    have more : 1 < mode.length := by
      have least : 1 ≤ mode.length := by cases mode <;> decide
      omega
    obtain ⟨value, rfl⟩ := Option.isSome_iff_exists.1 (given more)
    exact (operandBytes_fails mode value pc).map _

namespace Deferred

/-- An item that can be completed once addresses are known. -/
def Ready (cpu : Cpu) : Deferred → Prop
  | .instruction line mode _ _ => line.mode = some mode ∧ line.Encodable cpu
  | .data .. | .vector .. => True

/-- The value of an operand is found if there is one to be found. -/
theorem isSome_of_operandValue {addresses : Addresses} {line : Instruction}
    {value : Option Int64} (found : operandValue addresses line = .ok (some value)) :
    value.isSome = line.operand.value?.isSome := by
  -- An operand is evaluated exactly if the instruction has one.
  unfold operandValue at found
  split at found
  · rename_i none
    cases found
    rw [none]
    rfl
  · rename_i e some
    simp only [except_bind_eq_ok, except_pure_eq_ok, Option.map_eq_some_iff] at found
    obtain ⟨_, -, number, -, rfl⟩ := found
    rw [some]
    rfl

/-- An operand, if there is one, is an expression to be evaluated. -/
theorem operandValue_fails {sort : Error → Prop} {line : Instruction}
    (evaluating : ∀ cause, sort (.eval line.pos cause)) (addresses : Addresses) :
    FailsOnly sort (operandValue addresses line) := by
  -- Without an operand there is nothing that could fail.
  unfold operandValue
  split
  · exact .ok _
  · exact (addresses.eval_fails evaluating _).map _

/-- An instruction that can be encoded fails only for its addresses. -/
theorem instructionBytes_fails {cpu : Cpu} {line : Instruction} {mode : Mode}
    (moded : line.mode = some mode) (encodable : line.Encodable cpu) (addresses : Addresses)
    (pc : UInt16) : FailsOnly Error.Expected (instructionBytes cpu addresses line mode pc) := by
  -- The mode is the one that goes with the operand.
  obtain ⟨chosen, same, known, carries⟩ := encodable.mode
  obtain rfl : mode = chosen := Option.some.inj (moded.symm.trans same)
  refine (operandValue_fails (fun _ => rfl) addresses).bind fun value found => ?_
  cases value with
  | none => exact .ok _
  | some value =>
    have given : 1 < mode.length → value.isSome := by
      rw [isSome_of_operandValue found]
      exact carries.2
    have encoded := Cpu.encode_fails known given pc
    exact (FailsOnly.mapError fun cause failed => encoded cause failed).map _

/-- Initial contents fail as their values do, or for the width of an element, which is asked for if
there are values. -/
theorem dataBytes_fails {sort : Error → Prop} {session : Session} {var : Variable}
    (evaluating : ∀ cause, sort (.eval var.pos cause))
    (sizing : ∀ exprs, var.init.map Initializer.value = some (.values exprs) → FailsOnly sort
      ({ scopes := session.scopes, ns := var.ns, pos := var.pos : View }.sizeOfType var.type))
    (addresses : Addresses) : FailsOnly sort (dataBytes session addresses var) := by
  -- Text is there already; values ask for the width of an element first.
  unfold dataBytes
  split
  · exact .ok _
  · exact .ok _
  · rename_i exprs values
    exact (sizing exprs values).bind fun _ _ => (addresses.evalAll_fails evaluating _).map _

/-- An item that is ready fails only for its addresses. -/
theorem Ready.attempt_fails {session : Session} {item : Deferred} (ready : item.Ready session.cpu)
    (addresses : Addresses) : FailsOnly Error.Expected (item.attempt session addresses) := by
  -- One case for each kind of item: code, contents of a variable, a vector.
  cases item with
  | instruction line mode slot pc =>
    exact (instructionBytes_fails ready.1 ready.2 addresses pc).map _
  | data var size slot =>
    have sizing := ((View.fails ⟨session.scopes, var.ns, var.pos, []⟩).sizeOfType var.type).mono
      fun _ ofBinding => (Error.OfBinding.immediate ofBinding).expected
    exact (dataBytes_fails (fun _ => rfl) (fun _ _ => sizing) addresses).map _
  | vector => exact .ok _

end Deferred

/-! ### The walk and the rounds after it -/

namespace Layout

/-- Everything that waits is of a kind. -/
def Waiting (fit : Deferred → Prop) (state : Layout) : Prop :=
  ∀ item ∈ state.pending, fit item

/-- A sort of errors for items of a kind: it has all errors that are met at once, and those of trying
such an item. -/
structure Suits (session : Session) (fit : Deferred → Prop) (sort : Error → Prop) : Prop where
  /-- An error that is met at once is of the sort. -/
  immediate : ∀ e, e.Immediate → sort e
  /-- Trying an item fails with an error of the sort. -/
  attempt : ∀ item, fit item → ∀ addresses, FailsOnly sort (item.attempt session addresses)

/-- Steps of layout whose errors are of a sort, if all that waits is of a kind; and then all that
waits afterwards is. -/
abbrev Keeps {α : Type} (fit : Deferred → Prop) (sort : Error → Prop) (step : LayoutStep α) : Prop :=
  Guarded (Waiting fit) sort step

variable {session : Session} {fit : Deferred → Prop} {sort : Error → Prop} {α : Type}

/-- A change of anything but what waits. -/
theorem modify_keeps {f : Layout → Layout} (beside : ∀ state, (f state).pending = state.pending) :
    Keeps fit sort (modify f) := by
  -- What waits is untouched.
  refine .modify fun state waiting => ?_
  rw [Waiting, beside]
  exact waiting

/-- A question fails as it does. -/
theorem ask_keeps {question : Except Error α} (fails : FailsOnly sort question) :
    Keeps fit sort (ask question) := by
  -- The answer changes nothing, and the error is of the sort.
  cases question with
  | ok a => exact .pure a
  | error e => exact .throw (fails e rfl)

/-- Steps on the banks leave what waits. -/
theorem onRom_keeps (suits : Suits session fit sort) {step : RomStep α}
    (immediate : Rom.Immediate step) : Keeps fit sort (onRom step) := by
  -- The banks are only a part of the state.
  intro state waiting
  have after := immediate state.rom trivial
  unfold onRom
  cases ran : step state.rom with
  | ok a rom => exact waiting
  | error e rom =>
    rw [ran] at after
    exact ⟨waiting, suits.immediate e after.2⟩

/-- A name may be bound to another address already. -/
theorem bind_keeps (suits : Suits session fit sort) (name : String) (address : UInt16) (pos : Pos) :
    Keeps fit sort (bind name address pos) := by
  -- An address that is bound again has to be the same one.
  refine .read fun state _ => .bind (modify_keeps fun _ => rfl) fun _ => ?_
  split
  · split
    · exact .pure _
    · exact .throw (suits.immediate _ rfl)
  · exact .pure _

/-- What completes an item is no error. -/
theorem complete_keeps (suits : Suits session fit sort) (completion : Completion) :
    Keeps fit sort (complete completion) := by
  -- Bytes are filled into the image, and a vector is noted.
  cases completion with
  | write slot bytes => exact onRom_keeps suits (Rom.writeAt_immediate slot bytes)
  | vector kind address => exact modify_keeps fun _ => rfl

/-- An item is completed or waits. -/
theorem retry_keeps (suits : Suits session fit sort) {item : Deferred} (fits : fit item) :
    Keeps fit sort (retry session item) := by
  -- What is tried may fail, be completed or go on waiting.
  refine .read fun state _ => (ask_keeps (suits.attempt item fits state.addresses)).bind fun found => ?_
  cases found with
  | some completion => exact complete_keeps suits completion
  | none =>
    -- It joins those that wait, and is of the same kind.
    refine .modify fun state waiting other inside => ?_
    rcases List.mem_append.1 inside with before | here
    · exact waiting other before
    · exact List.mem_singleton.1 here ▸ fits

/-- A label. -/
theorem label_keeps (suits : Suits session fit sort) (l : Label) : Keeps fit sort (label l) :=
  (onRom_keeps suits (Rom.address_immediate l.pos)).bind fun _ =>
    (bind_keeps suits _ _ _).bind fun _ => modify_keeps fun _ => rfl

/-- An instruction in its mode. -/
theorem instruction_keeps (suits : Suits session fit sort) {line : Instruction} {mode : Mode}
    (moded : line.mode = some mode) (fits : ∀ slot pc, fit (.instruction line mode slot pc)) :
    Keeps fit sort (instruction session line) := by
  -- Room is made for it at once, since the length goes with the mode.
  simp only [instruction, moded]
  exact (onRom_keeps suits (Rom.reserve_immediate _ _)).bind fun _ => retry_keeps suits (fits _ _)

/-- A variable with initial contents. -/
theorem initialized_keeps (suits : Suits session fit sort) {var : Variable} {size : Nat}
    (fits : ∀ slot, fit (.data var size slot)) : Keeps fit sort (initialized session var size) := by
  -- Space is reserved, the name bound and the place recorded before the contents are tried.
  refine (onRom_keeps suits (Rom.reserve_immediate _ _)).bind fun _ => ?_
  refine (bind_keeps suits _ _ _).bind fun _ => .bind (modify_keeps fun _ => rfl) fun _ => ?_
  -- A size that no memory holds is an error like one that there is no room for.
  split
  · exact .throw (suits.immediate _ rfl)
  · exact retry_keeps suits (fits _)

/-- The fixed address of a variable may be unknown, or lie beyond the address space. -/
theorem fixedAddress_keeps (suits : Suits session fit sort) (var : Variable) (e : Expr) :
    Keeps fit sort (fixedAddress var e) := by
  -- The expression is evaluated at once, and its value has to be an address.
  have evaluating : ∀ cause, sort (.eval var.pos cause) := fun _ => suits.immediate _ rfl
  refine .read fun state _ => (ask_keeps (state.addresses.eval_fails evaluating e)).bind fun found => ?_
  cases found with
  | none => exact .throw (suits.immediate _ rfl)
  | some value =>
    simp only
    split
    · exact .pure _
    · exact .throw (suits.immediate _ rfl)

/-- There may be no free place for a variable. -/
theorem freeAddress_keeps (suits : Suits session fit sort) (var : Variable) (size : Nat) :
    Keeps fit sort (freeAddress var size) := by
  -- There may be no window, or no place in it.
  refine .read fun state _ => ?_
  split
  · exact .throw (suits.immediate _ rfl)
  · refine .read fun state _ => ?_
    split
    · exact .throw (suits.immediate _ rfl)
    · exact .bind (modify_keeps fun _ => rfl) fun _ => .pure _

/-- A variable without initial contents. -/
theorem uninitialized_keeps (suits : Suits session fit sort) (var : Variable) (size : Nat) :
    Keeps fit sort (uninitialized var size) := by
  -- Both ways to an address end with the record of it.
  have recorded : ∀ address : UInt16, Keeps fit sort (do
      bind var.key address var.pos
      modify fun state => { state with placed := state.placed ++ [⟨var.key, address, size⟩] }) :=
    fun _ => (bind_keeps suits _ _ _).bind fun _ => modify_keeps fun _ => rfl
  unfold uninitialized
  split
  · exact (fixedAddress_keeps suits _ _).bind recorded
  · exact (freeAddress_keeps suits _ _).bind recorded

/-- A variable whose size is known. -/
theorem variableOf_keeps (suits : Suits session fit sort) {var : Variable} {size : Nat}
    (sized : var.size = some size) (fits : ∀ slot, fit (.data var size slot)) :
    Keeps fit sort (variableOf session var) := by
  -- Whether a variable has contents decides where it is placed.
  simp only [variableOf, sized]
  split
  · exact initialized_keeps suits fits
  · exact uninitialized_keeps suits var size

/-- A window may lie beyond the address space. -/
theorem openWindow_keeps (suits : Suits session fit sort) (address : Nat) (maxsize : Option Nat)
    (pos : Pos) : Keeps fit sort (openWindow address maxsize pos) := by
  -- The check is the same, whether the window has a size or not.
  cases maxsize with
  | none | some =>
    simp only [openWindow]
    split
    · exact .throw (suits.immediate _ rfl)
    · exact modify_keeps fun _ => rfl

/-- A directive. -/
theorem directive_keeps (suits : Suits session fit sort) (d : Directive) (pos : Pos)
    (fits : ∀ kind name, fit (.vector kind name pos)) : Keeps fit sort (directive session d pos) := by
  -- Directive by directive; most are steps of the banks.
  cases d with
  | romOrg => exact onRom_keeps suits (Rom.openRegion_immediate _ _ _)
  | romEnd => exact onRom_keeps suits (Rom.closeRegion_immediate _)
  | romBank => exact onRom_keeps suits (Rom.select_immediate _ _)
  | romBanksize size => exact onRom_keeps suits (Rom.setBanksize_immediate size)
  | ramOrg => exact openWindow_keeps suits _ _ _
  | ramEnd => exact modify_keeps fun _ => rfl
  | setPad => exact onRom_keeps suits (Rom.setPadding_immediate _)
  | align => exact onRom_keeps suits (Rom.align_immediate _ _)
  | incbin => exact (onRom_keeps suits (Rom.write_immediate _ _)).bind fun _ => .pure _
  | vector => exact retry_keeps suits (fits _ _)

/-- The walk over statements, if each of them is fit for it. -/
theorem walk_keeps {stmts : List Stmt} (each : ∀ s ∈ stmts, Keeps fit sort (stmt session s)) :
    Keeps fit sort (walk session stmts) := by
  -- By induction on the statements, each of which keeps what waits fit.
  induction stmts with
  | nil => exact .pure _
  | cons first others ih =>
    rw [List.forall_mem_cons] at each
    exact each.1.bind fun _ => ih each.2

/-- Items in order. -/
theorem retryAll_keeps (suits : Suits session fit sort) {items : List Deferred}
    (fits : ∀ item ∈ items, fit item) : Keeps fit sort (retryAll session items) := by
  -- By induction on the items.
  induction items with
  | nil => exact .pure _
  | cons item others ih =>
    rw [List.forall_mem_cons] at fits
    exact (retry_keeps suits fits.1).bind fun _ => ih fits.2

/-- The rounds after the walk, which take up what waits. -/
theorem settle_keeps (suits : Suits session fit sort)
    (converging : ∀ e : Error, e.kind = .convergence → sort e) (count left : Nat) :
    Keeps fit sort (settle session count left) := by
  -- By induction on the rounds that are left; having none left is itself an error of the sort.
  induction left generalizing count with
  | zero => exact .throw (converging _ rfl)
  | succ left ih =>
    refine .read fun state waiting => ?_
    simp only
    split
    · exact .pure _
    · -- All that waits is taken up at once, and what still has to wait queues up anew.
      have emptied : Keeps fit sort (modify fun state => { state with pending := [] }) := by
        refine .modify fun _ _ item inside => ?_
        cases inside
      refine emptied.bind fun _ => (retryAll_keeps suits waiting).bind fun _ => .read fun state _ => ?_
      split
      · exact .throw (converging _ rfl)
      · exact ih _

/-! ### Statements that are flat and resolved -/

/-- No item that is ready fails because it was not. -/
theorem suits_ready (session : Session) : Suits session (Deferred.Ready session.cpu) Error.Expected :=
  ⟨fun _ => Error.Immediate.expected, fun _ ready => ready.attempt_fails⟩

/-- A statement that is flat and resolved. -/
theorem stmt_keeps {s : Stmt} (encodable : s.Encodable session.cpu) :
    Keeps (Deferred.Ready session.cpu) Error.Expected (stmt session s) := by
  -- Statement by statement, each as ready as it has been shown to be.
  have suits := suits_ready session
  cases encodable with
  | label l => exact label_keeps suits l
  | fileBegin | fileEnd => exact .pure _
  | directive d pos => exact directive_keeps suits d pos fun _ _ => trivial
  | var known =>
    obtain ⟨size, sized⟩ := Option.isSome_iff_exists.1 known.size
    exact variableOf_keeps suits sized fun _ => trivial
  | instruction encodable =>
    obtain ⟨mode, moded, -⟩ := encodable.mode
    exact instruction_keeps suits moded fun _ _ => ⟨moded, encodable⟩

/-- All of layout, on statements that are flat and resolved. -/
theorem run_keeps {stmts : List Stmt} (encodable : ∀ s ∈ stmts, s.Encodable session.cpu) :
    Keeps (Deferred.Ready session.cpu) Error.Expected (run session stmts) := by
  -- The walk, the closing of all regions, and the rounds behind it.
  have suits := suits_ready session
  -- Rounds that come to nothing are no statement that was not ready.
  have converging : ∀ e : Error, e.kind = .convergence → e.Expected := by
    intro e same
    cases e <;> first | rfl | cases same
  refine (walk_keeps fun s inside => stmt_keeps (encodable s inside)).bind fun _ => ?_
  exact (onRom_keeps suits (Rom.closeAll_immediate _)).bind fun _ => settle_keeps suits converging _ _

end Layout

/-- Layout of statements that are flat and resolved does not fail because one was not ready. -/
theorem layout_fails {session : Session} {stmts : List Stmt}
    (encodable : ∀ s ∈ stmts, s.Encodable session.cpu) :
    FailsOnly Error.Expected (layout session stmts) := by
  -- Nothing waits at the start, so nothing that waits is unready.
  intro e failed
  unfold layout at failed
  split at failed
  · cases failed
  · rename_i cause state ran
    cases failed
    have nothing : Layout.Waiting (Deferred.Ready session.cpu) {} := by
      intro item inside
      cases inside
    exact ((Layout.run_keeps encodable).fails nothing ran).2

/-- Every statement that resolving gives is a label, a mark around a file, a directive, a variable
that is known or an instruction that can be encoded. So layout in the same session never fails with
a statement that is left over, a mode that the processor does not have, or an operand that is
missing. -/
theorem resolve_ready_for_layout {stmts flat : List Stmt} {session session' : Session}
    (ran : resolve stmts session = .ok flat session') :
    (∀ s ∈ flat, s.Encodable session'.cpu) ∧
      (∀ pos text, layout session' flat ≠ .error (.unstructured pos text)) ∧
      (∀ pos op mode, layout session' flat ≠ .error (.encode pos (.invalidMode op mode))) ∧
      ∀ pos op mode, layout session' flat ≠ .error (.encode pos (.missingOperand op mode)) := by
  -- All that resolving leaves is encodable, and then layout fails with nothing else.
  have encodable : ∀ s ∈ flat, s.Encodable session'.cpu :=
    fun s inside => (Resolve.roundsFrom_stay ran s inside).encodable
  have fails := layout_fails encodable
  refine ⟨encodable, fun pos text failed => ?_, fun pos op mode failed => ?_,
    fun pos op mode failed => ?_⟩
  · cases fails _ failed
  · cases fails _ failed
  · cases fails _ failed

/-- The branch, the instruction and the label of the conditional are all ready for layout. -/
theorem skipping_ready :
    ∃ flat session', resolve skipping { cpu := .nmos } = .ok flat session' ∧ flat.length = 3 ∧
      (∀ s ∈ flat, s.Encodable session'.cpu) ∧
      (∀ pos text, layout session' flat ≠ .error (.unstructured pos text)) := by
  -- The theorem is used of the list that resolving gives.
  obtain ⟨flat, session', ran, length, -⟩ := skipping_resolved
  obtain ⟨encodable, structured, -⟩ := resolve_ready_for_layout ran
  exact ⟨flat, session', ran, length, encodable, structured⟩

end CrossAsm
