import CrossAsm.Proofs.Resolve.Fixpoint

/-! What resolving ends with: flat statements without names of the source in them, variables with a
size, and instructions that the processor has in the mode that was chosen for them. -/

namespace CrossAsm

namespace Cpu

variable {cpu : Cpu} {op : Op} {shape : Shape} {zeroPage : Bool} {mode : Mode}

/-- A mode is chosen only if the processor has the mnemonic in it. -/
theorem opcode_of_select (selected : cpu.select op shape zeroPage = some mode) :
    (cpu.opcode op mode).isSome :=
  List.find?_some (p := fun mode => (cpu.opcode op mode).isSome) selected

/-- In every mode that an operand may be encoded in, something follows the opcode exactly if the
operand has a value. -/
theorem length_of_candidate (candidate : mode ∈ candidates op shape zeroPage) :
    shape.value?.isSome ↔ 1 < mode.length := by
  -- Each form of an operand has one or two modes; only branches have a form to themselves.
  cases shape with
  | none | accumulator | immediate | indirect | indexedIndirect | indirectIndexed =>
    simp only [candidates, List.mem_cons, List.not_mem_nil, or_false] at candidate
    rcases candidate with rfl | rfl <;> simp [Operand.value?, Mode.length]
  | indexedX | indexedY =>
    cases zeroPage <;> simp [candidates] at candidate <;>
      rcases candidate with rfl | rfl <;> simp [Operand.value?, Mode.length]
  | address =>
    cases branch : op.isBranch <;> cases zeroPage <;> simp [candidates, branch] at candidate <;>
      rcases candidate with rfl | rfl <;> simp [Operand.value?, Mode.length]

/-- In the chosen mode something follows the opcode exactly if the operand has a value. -/
theorem length_of_select (selected : cpu.select op shape zeroPage = some mode) :
    shape.value?.isSome ↔ 1 < mode.length :=
  length_of_candidate (List.mem_of_find?_eq_some selected)

end Cpu

/-- An instruction that a processor can encode once addresses are known: it has a mode, the
processor has the mnemonic in that mode, and no name is left in the operand, which has a value
exactly if the mode takes more than the opcode. -/
structure Instruction.Encodable (cpu : Cpu) (line : Instruction) : Prop where
  /-- The mode is one that the processor has. -/
  mode : ∃ mode, line.mode = some mode ∧ (cpu.opcode line.op mode).isSome ∧
    (line.operand.value?.isSome ↔ 1 < mode.length)
  /-- No name is left in the operand. -/
  nameless : ∀ e ∈ line.operand.value?, e.Nameless

/-- A variable whose size is known, with no name left in its address and its initial values. -/
structure Variable.Known (var : Variable) : Prop where
  /-- The size is known. -/
  size : var.size.isSome
  /-- No name is left in the address. -/
  address : ∀ e ∈ var.address, e.Nameless
  /-- No name is left in the initial values. -/
  init : ∀ init ∈ var.init, ∀ exprs, init.value = .values exprs → ∀ e ∈ exprs, e.Nameless

/-- A statement that is flat and has nothing left to be resolved. -/
inductive Stmt.Encodable (cpu : Cpu) : Stmt → Prop
  | label (l : Label) : Encodable cpu (.item (.label l))
  | fileBegin (name : String) : Encodable cpu (.item (.fileBegin name))
  | fileEnd (name : String) : Encodable cpu (.item (.fileEnd name))
  | directive (d : Directive) (pos : Pos) : Encodable cpu (.item (.directive d pos))
  | var {var : Variable} (known : var.Known) : Encodable cpu (.item (.var var))
  | instruction {line : Instruction} (encodable : line.Encodable cpu) :
    Encodable cpu (.item (.instruction line))

namespace Resolve

variable {session session' : Session} {view : View} {s : Stmt}

/-- No name is left in an operand that is bound. -/
theorem boundOperand_nameless {line : Instruction} {operand : Operand Expr}
    (bound : boundOperand session line = .ok (some operand)) :
    ∀ e ∈ operand.value?, e.Nameless := by
  -- What an operand is bound to is settled, and so has no name.
  intro e value
  unfold boundOperand at bound
  cases here : line.operand.value? with
  | none =>
    -- An operand without a value is bound as it is.
    simp only [here, except_pure_eq_ok, Option.some.injEq] at bound
    simp [← bound, here] at value
  | some written =>
    simp only [here, except_bind_eq_ok, except_pure_eq_ok, Option.map_eq_some_iff] at bound
    obtain ⟨_, known, value', rfl, rfl⟩ := bound
    rw [Operand.value?_map, here] at value
    cases value
    exact (View.bind_settled known).nameless

/-- An instruction that stays can be encoded. -/
theorem instruction_encodable {line : Instruction}
    (stays : Stays session (.item (.instruction line))) : line.Encodable session.cpu := by
  -- The instruction was settled as it is, so that its mode was chosen for its operand.
  have settled : instruction session line = .ok (.settled (.instruction line)) :=
    (Session.ask_eq_ok.1 stays).1
  obtain ⟨operand, mode, bound, selected, same⟩ := instruction_settled settled
  have operandSame : line.operand = operand := congrArg Instruction.operand same
  have modeSame : line.mode = some mode := congrArg Instruction.mode same
  -- The value is carried by the form of the operand, which is what the mode was chosen for.
  have carried : operand.shape.value?.isSome = operand.value?.isSome := by
    rw [Operand.shape, Operand.value?_map, Option.isSome_map]
  refine ⟨⟨mode, modeSame, Cpu.opcode_of_select selected, ?_⟩, ?_⟩
  · rw [operandSame, ← carried]
    exact Cpu.length_of_select selected
  · rw [operandSame]
    exact boundOperand_nameless bound

/-- An address that is not counted as open has no name left. -/
theorem boundAddress_nameless {address address' : Option Expr}
    (ran : boundAddress view address = .ok (address', 0)) : ∀ e ∈ address', e.Nameless := by
  -- There is no address, or it is bound; one that waits is counted.
  have becomes := boundAddress_becomes ran (Nat.le_refl 0)
  cases becomes with
  | free => exact nofun
  | bound known =>
    rintro e ⟨⟩
    exact (View.bind_settled known).nameless
  | waiting pending => exact absurd pending (Nat.lt_irrefl 0)

/-- Values of which none is counted as open have no name left. -/
theorem bindEach_nameless {exprs exprs' : List Expr}
    (ran : bindEach view exprs = .ok (exprs', 0)) : ∀ e ∈ exprs', e.Nameless := by
  -- By induction on the values.
  induction exprs generalizing exprs' with
  | nil =>
    cases ran
    exact nofun
  | cons first others ih =>
    simp only [bindEach, except_bind_eq_ok] at ran
    obtain ⟨bound, known, ⟨rest, count⟩, ranRest, ran⟩ := ran
    cases bound with
    | none =>
      -- A value that is not known is counted.
      simp at ran
    | some value =>
      cases ran
      rw [List.forall_mem_cons]
      exact ⟨(View.bind_settled known).nameless, ih ranRest⟩

/-- An initializer of which no value is counted as open has no name left. -/
theorem boundInit_nameless {init init' : Option Initializer}
    (ran : boundInit view init = .ok (init', 0)) :
    ∀ init ∈ init', ∀ exprs, init.value = .values exprs → ∀ e ∈ exprs, e.Nameless := by
  -- By what the initializer is: missing, values, or a text.
  rcases init with _ | ⟨exprs | text, pos⟩
  · cases ran
    exact nofun
  · simp only [boundInit, except_bind_eq_ok] at ran
    obtain ⟨⟨exprs', _⟩, bound, ran⟩ := ran
    cases ran
    rintro _ ⟨⟩ _ ⟨⟩
    exact bindEach_nameless bound
  · cases ran
    rintro _ ⟨⟩ _ ⟨⟩

/-- A variable that stays is known. -/
theorem variable_known {var : Variable} (stays : Stays session (.item (.var var))) :
    var.Known := by
  -- The variable is what its own parts are bound to.
  have settled := (Session.ask_eq_ok.1 stays).1
  simp only [variableOf_eq, except_bind_eq_ok, except_pure_eq_ok] at settled
  obtain ⟨size, -, ⟨address, addressOpen⟩, placed, ⟨init, initOpen⟩, filled, same⟩ := settled
  -- What is open in the parts is summed up, so no part has any of it.
  simp only [Outcome.mk.injEq, List.cons.injEq, Stmt.item.injEq, Item.var.injEq, and_true] at same
  obtain ⟨same, count⟩ := same
  have sizeDone : size.isSome := by
    cases size with
    | none => simp at count
    | some => rfl
  obtain ⟨rfl, rfl⟩ : addressOpen = 0 ∧ initOpen = 0 := by omega
  have sizeSame : size = var.size := congrArg Variable.size same
  have addressSame : address = var.address := congrArg Variable.address same
  have initSame : init = var.init := congrArg Variable.init same
  subst sizeSame addressSame initSame
  exact ⟨sizeDone, boundAddress_nameless placed, boundInit_nameless filled⟩

/-- A statement that stays is flat and has nothing left to be resolved. -/
theorem Stays.encodable (stays : Stays session s) : s.Encodable session.cpu := by
  -- A turn that gives the statement back with nothing open is one that keeps it.
  have turn := stmt_turn stays
  generalize same : (⟨[s], 0⟩ : Outcome) = out at turn
  cases turn with
  | dropped => cases same
  | waits | called | returned => cases same
  | expanded | subroutine | conditional =>
    -- One statement in place of another counts as open.
    obtain ⟨one, none⟩ := Outcome.mk.inj same
    rw [← one] at none
    cases none
  | kept refines =>
    cases refines with
    | label l => exact .label l
    | fileBegin name => exact .fileBegin name
    | fileEnd name => exact .fileEnd name
    | directive d pos => exact .directive d pos
    | instruction line => exact .instruction (instruction_encodable stays)
    | var var => exact .var (variable_known stays)

end Resolve

end CrossAsm
