import CrossAsm.Proofs.Resolve.Visits

/-! What a resolved statement is in later rounds: an instruction with its operand bound stays as it
is, and a variable keeps its name, its address once bound, and whether it has an initializer. -/

namespace CrossAsm

namespace Operand

variable {α β γ : Type}

/-- Changing the value twice. -/
theorem map_map (operand : Operand α) (f : α → β) (g : β → γ) :
    (operand.map f).map g = operand.map fun a => g (f a) := by
  -- None of the forms of an operand has more than one value.
  cases operand <;> rfl

/-- The value of a changed operand. -/
theorem value?_map (operand : Operand α) (f : α → β) :
    (operand.map f).value? = operand.value?.map f := by
  -- None of the forms of an operand has more than one value.
  cases operand <;> rfl

end Operand

namespace Resolve

variable {session later : Session} {line resolved : Instruction}

/-- The operand of an instruction with its value bound; none while that is not known. -/
def boundOperand (session : Session) (line : Instruction) :
    Except Error (Option (Operand Expr)) :=
  match line.operand.value? with
  | none => pure (some line.operand)
  | some e => do
    return (← (viewOf session line.ns line.pos).bind e).map fun value =>
      line.operand.map fun _ => value

/-- An instruction with a mode for its bound operand. -/
theorem instruction_eq (session : Session) (line : Instruction) :
    instruction session line = (do
      match ← boundOperand session line with
      | none => return .waiting (.instruction line)
      | some operand =>
        match session.cpu.select line.op operand.shape (inZeroPage operand) with
        | some mode => return .settled (.instruction { line with operand, mode := some mode })
        | none => throw (.invalidOperand line.pos line.render)) := by
  -- The operand is bound first, whether there is a value in it or not.
  unfold instruction boundOperand
  cases line.operand.value? with
  | none => rfl
  | some e =>
    simp only
    cases (viewOf session line.ns line.pos).bind e <;> rfl

/-- An instruction is settled with its operand bound and a mode for it. -/
theorem instruction_settled
    (ran : instruction session line = .ok (.settled (.instruction resolved))) :
    ∃ operand mode, boundOperand session line = .ok (some operand) ∧
      session.cpu.select line.op operand.shape (inZeroPage operand) = some mode ∧
      resolved = { line with operand, mode := some mode } := by
  -- An instruction that waits is not settled, and one without a mode is an error.
  rw [instruction_eq, except_bind_eq_ok] at ran
  obtain ⟨found, bound, ran⟩ := ran
  cases found with
  | none => simp [Outcome.waiting, Outcome.settled] at ran
  | some operand =>
    simp only at ran
    split at ran
    · rename_i mode selected
      simp only [except_pure_eq_ok, Outcome.settled, Outcome.mk.injEq, List.cons.injEq,
        Stmt.item.injEq, Item.instruction.injEq, and_true] at ran
      exact ⟨operand, mode, bound, selected, ran.symm⟩
    · cases ran

/-- An instruction waits as it is, or it is settled. -/
theorem instruction_outcome {line : Instruction} (ran : instruction session line = .ok out) :
    out = .waiting (.instruction line) ∨ ∃ resolved, out = .settled (.instruction resolved) := by
  -- The operand is bound or not, and with it the mode is chosen.
  rw [instruction_eq, except_bind_eq_ok] at ran
  obtain ⟨bound, -, ran⟩ := ran
  cases bound with
  | none => exact .inl (except_pure_eq_ok.1 ran).symm
  | some operand =>
    simp only at ran
    split at ran
    · exact .inr ⟨_, (except_pure_eq_ok.1 ran).symm⟩
    · cases ran

/-- A bound operand is bound to itself. -/
theorem boundOperand_again {operand : Operand Expr}
    (bound : boundOperand session line = .ok (some operand)) (mode : Option Mode) :
    boundOperand later { line with operand, mode } = .ok (some operand) := by
  -- What is bound has no names left that a later session could bind otherwise.
  unfold boundOperand at bound
  cases here : line.operand.value? with
  | none =>
    simp only [here, except_pure_eq_ok, Option.some.injEq] at bound
    subst bound
    simp [boundOperand, here]
  | some e =>
    simp only [here, except_bind_eq_ok, except_pure_eq_ok, Option.map_eq_some_iff] at bound
    obtain ⟨_, known, value, rfl, rfl⟩ := bound
    -- What the operand was bound to is settled.
    have settled := View.bind_settled known
    simp only [boundOperand, Operand.value?_map, here, Option.map_some,
      View.bind_of_settled settled, Operand.map_map]
    rfl

/-- A settled instruction is settled as it is. -/
theorem instruction_again
    (ran : instruction session line = .ok (.settled (.instruction resolved)))
    (cpu : later.cpu = session.cpu) :
    instruction later resolved = .ok (.settled (.instruction resolved)) := by
  -- The same operand on the same processor has the same mode.
  obtain ⟨operand, mode, bound, selected, rfl⟩ := instruction_settled ran
  rw [instruction_eq, except_bind_eq_ok]
  refine ⟨some operand, boundOperand_again bound (some mode), ?_⟩
  simp only [cpu, selected]
  rfl

/-! ### Variables -/

variable {var : Variable} {out : Outcome}

/-- What the declared address of a variable becomes: nothing if there is none, and else what it is
bound to, or the same while it is not known. -/
inductive AddressBecomes (view : View) (unresolved : Nat) : Option Expr → Option Expr → Prop
  | free : AddressBecomes view unresolved none none
  | bound {e value : Expr} (known : view.bind e = .ok (some value)) :
    AddressBecomes view unresolved (some e) (some value)
  | waiting {e : Expr} (pending : 0 < unresolved) :
    AddressBecomes view unresolved (some e) (some e)

/-- The initializer of a variable with its values bound, and how many of them are not known. -/
def boundInit (view : View) : Option Initializer → Except Error (Option Initializer × Nat)
  | some ⟨.values exprs, pos⟩ => do
    let (exprs, unresolved) ← bindEach view exprs
    return (some ⟨.values exprs, pos⟩, unresolved)
  | init => return (init, 0)

/-- The address of a variable bound, and whether it is not known. -/
def boundAddress (view : View) : Option Expr → Except Error (Option Expr × Nat)
  | none => return (none, 0)
  | some address => do
    match ← view.bind address with
    | some bound => return (some bound, 0)
    | none => return (some address, 1)

/-- A variable with its parts bound one after another. -/
theorem variableOf_eq (session : Session) (var : Variable) :
    variableOf session var = (do
      let view := viewOf session var.ns var.pos
      let size ← view.sizeOfVariable var
      let (address, addressOpen) ← boundAddress view var.address
      let (init, initOpen) ← boundInit view var.init
      let sizeOpen := if size.isNone then 1 else 0
      return ⟨[.item (.var { var with size, address, init })],
        sizeOpen + addressOpen + initOpen⟩) := by
  -- The same steps in the same order; only the cases are told apart earlier.
  unfold variableOf
  simp only
  congr 1
  funext size
  rcases var.address with _ | address
  · -- Without an address, by the initializer.
    rcases var.init with _ | ⟨value | value, pos⟩
    · rfl
    · simp only [boundAddress, boundInit]
      cases bindEach (viewOf session var.ns var.pos) value <;> rfl
    · rfl
  · -- With an address, by what it is bound to, and then by the initializer.
    simp only [boundAddress]
    rcases (viewOf session var.ns var.pos).bind address with e | _ | bound
    · rfl
    · rcases var.init with _ | ⟨value | value, pos⟩
      · rfl
      · simp only [boundInit]
        cases bindEach (viewOf session var.ns var.pos) value <;> rfl
      · rfl
    · rcases var.init with _ | ⟨value | value, pos⟩
      · rfl
      · simp only [boundInit]
        cases bindEach (viewOf session var.ns var.pos) value <;> rfl
      · rfl

/-- An initializer stays where there is one. -/
theorem boundInit_isSome {view : View} {init init' : Option Initializer} {count : Nat}
    (ran : boundInit view init = .ok (init', count)) : init'.isSome = init.isSome := by
  -- Only values are bound, and they stay values.
  unfold boundInit at ran
  split at ran
  · rw [except_bind_eq_ok] at ran
    obtain ⟨_, -, ran⟩ := ran
    cases ran
    rfl
  · cases ran
    rfl

/-- An address is bound, or waits and counts as unresolved. -/
theorem boundAddress_becomes {view : View} {address address' : Option Expr} {count : Nat}
    (ran : boundAddress view address = .ok (address', count)) {unresolved : Nat}
    (counted : count ≤ unresolved) : AddressBecomes view unresolved address address' := by
  -- By whether there is an address, and whether it is known.
  cases address with
  | none =>
    cases ran
    exact .free
  | some e =>
    simp only [boundAddress, except_bind_eq_ok] at ran
    obtain ⟨value, known, ran⟩ := ran
    cases value with
    | none =>
      cases ran
      exact .waiting counted
    | some value =>
      cases ran
      exact .bound known

/-- A variable keeps its name and place, and whether it has an initializer. -/
theorem variableOf_run (ran : variableOf session var = .ok out) :
    ∃ size address init, out.stmts = [.item (.var { var with size, address, init })] ∧
      init.isSome = var.init.isSome ∧
      AddressBecomes (viewOf session var.ns var.pos) out.unresolved var.address address := by
  -- An address that waits is one of the parts that are counted.
  simp only [variableOf_eq, except_bind_eq_ok, except_pure_eq_ok] at ran
  obtain ⟨size, -, ⟨address, addressOpen⟩, placed, ⟨init, initOpen⟩, filled, rfl⟩ := ran
  exact ⟨size, address, init, rfl, boundInit_isSome filled,
    boundAddress_becomes placed (by simp; omega)⟩

/-! ### To the end of all rounds -/

variable {stmts flat : List Stmt} {session' before after : Session} {s : Stmt}
  {count left : Nat}

/-- An instruction that is settled in some round is there at the end. -/
theorem instruction_lasts (ran : roundsFrom count left stmts session = .ok flat session')
    (tidy : session.scopes.Tidy)
    (met : (before, .item (.instruction line)) ∈ visitsFrom left stmts session)
    (settled : instruction before line = .ok (.settled (.instruction resolved))) :
    .item (.instruction resolved) ∈ flat := by
  -- The round that meets it is followed by others, each of which meets what it left.
  obtain ⟨-, onward⟩ := visit_onward ran tidy
  -- Settled once, it is settled as it is in every round that is left.
  have became : stmt (.item (.instruction line)) before =
      .ok (.settled (.instruction resolved)) before := Session.ask_eq_ok.2 ⟨settled, rfl⟩
  obtain ⟨_, _, became', ends⟩ := visit_run ran met
  cases became.symm.trans became'
  rcases ends with ⟨-, among⟩ | each
  · exact among (List.mem_singleton_self _)
  · obtain ⟨later, there⟩ := each _ (List.mem_singleton_self _)
    -- Every later session has the same processor, so the mode is the same again.
    have again : ∀ later, (later, .item (.instruction resolved)) ∈ visitsFrom left stmts session →
        stmt (.item (.instruction resolved)) later =
          .ok (.settled (.instruction resolved)) later := by
      intro later there
      have cpu : later.cpu = before.cpu :=
        (onward _ _ there).1.cpu.trans (onward _ _ met).1.cpu.symm
      exact Session.ask_eq_ok.2 ⟨instruction_again settled cpu, rfl⟩
    obtain ⟨last, _, out, after, there, rfl, became, -, among⟩ :=
      exists_last (P := (· = .item (.instruction resolved))) ran
        (by
          rintro later _ out after there rfl ran
          cases (again later there).symm.trans ran
          exact ⟨_, List.mem_singleton_self _, rfl⟩)
        there rfl
    cases (again last there).symm.trans became
    exact among (List.mem_singleton_self _)

/-- An instruction that is met is settled in some round. -/
theorem instruction_settles (ran : roundsFrom count left stmts session = .ok flat session')
    {line : Instruction} (met : (before, .item (.instruction line)) ∈ visitsFrom left stmts session) :
    ∃ found resolved, (found, .item (.instruction line)) ∈ visitsFrom left stmts session ∧
      instruction found line = .ok (.settled (.instruction resolved)) := by
  -- If it always had to wait, it would still wait in the last round, which leaves nothing open.
  refine Classical.byContradiction fun never => ?_
  have waits : ∀ found out after, (found, .item (.instruction line)) ∈ visitsFrom left stmts session →
      stmt (.item (.instruction line)) found = .ok out after →
      out = .waiting (.instruction line) := by
    intro found out after there became
    have asked := (Session.ask_eq_ok.1 became).1
    rcases instruction_outcome asked with waiting | ⟨resolved, rfl⟩
    · exact waiting
    · exact absurd ⟨found, resolved, there, asked⟩ never
  obtain ⟨late, _, out, after, there, rfl, became, done, -⟩ :=
    exists_last (P := (· = .item (.instruction line))) ran
      (by
        rintro found _ out after there rfl became
        rw [waits found out after there became]
        exact ⟨_, List.mem_singleton_self _, rfl⟩)
      met rfl
  rw [waits late out after there became] at done
  cases done

/-- What the address of a declaration is bound to with one of the sessions that are met. -/
def BoundTo (visited : List (Session × Stmt)) (var : Variable) (value : Expr) : Prop :=
  ∃ e before s, var.address = some e ∧ (before, s) ∈ visited ∧
    (viewOf before var.ns var.pos).bind e = .ok (some value)

/-- A variable that comes of a declaration. -/
structure ComesOf (visited : List (Session × Stmt)) (var last : Variable) : Prop where
  /-- It has the name of the declaration. -/
  name : last.name = var.name
  /-- It has the namespace of the declaration. -/
  ns : last.ns = var.ns
  /-- It is reported where the declaration is. -/
  pos : last.pos = var.pos
  /-- It has an initializer if the declaration has one. -/
  init : last.init.isSome = var.init.isSome
  /-- Its address is as declared, or what that was bound to. -/
  address : last.address = var.address ∨ ∃ value, last.address = some value ∧
    BoundTo visited var value

/-- The same, with the address bound if there is one. -/
structure EndsOf (visited : List (Session × Stmt)) (var last : Variable) : Prop
    extends ComesOf visited var last where
  /-- There is no address, or it is bound. -/
  bound : (var.address = none ∧ last.address = none) ∨ ∃ value, last.address = some value ∧
    BoundTo visited var value

/-- What comes of a declaration becomes something that comes of it, with its address bound if
nothing is left unresolved. -/
theorem ComesOf.next {visited : List (Session × Stmt)} {last : Variable}
    (comes : ComesOf visited var last) (met : (before, s) ∈ visited)
    (ran : variableOf before last = .ok out) :
    ∃ later, out.stmts = [.item (.var later)] ∧ ComesOf visited var later ∧
      (out.unresolved = 0 → EndsOf visited var later) := by
  -- The parts that name a variable are not touched; what is left is its address.
  obtain ⟨size, address, init, became, filled, addressed⟩ := variableOf_run ran
  rw [comes.ns, comes.pos] at addressed
  -- The address waits, is absent, or is what the declared one is bound to.
  have placed : (out.unresolved ≠ 0 ∧ address = var.address) ∨
      (var.address = none ∧ address = none) ∨
      ∃ value, address = some value ∧ BoundTo visited var value := by
    -- It was as declared up to now.
    rcases comes.address with declared | ⟨value, here, bound⟩
    · rw [declared] at addressed
      generalize found : var.address = old at addressed
      cases addressed with
      | free => exact .inr (.inl ⟨rfl, rfl⟩)
      | bound known => exact .inr (.inr ⟨_, rfl, _, before, s, found, met, known⟩)
      | waiting pending => exact .inl ⟨by omega, rfl⟩
    · -- An address that is bound stays as it is.
      rw [here] at addressed
      obtain ⟨e, earlier, stmt, found, there, known⟩ := bound
      have again : (viewOf before var.ns var.pos).bind value = .ok (some value) :=
        View.bind_of_settled (View.bind_settled known)
      refine .inr (.inr ⟨value, ?_, e, earlier, stmt, found, there, known⟩)
      cases addressed with
      | bound known' =>
        cases again.symm.trans known'
        rfl
      | waiting => rfl
  -- All other parts are those of the declaration.
  have comes' : ComesOf visited var { last with size, address, init } := by
    refine ⟨comes.name, comes.ns, comes.pos, filled.trans comes.init, ?_⟩
    rcases placed with ⟨-, same⟩ | ⟨none, none'⟩ | bound
    · exact .inl same
    · exact .inl (none'.trans none.symm)
    · exact .inr bound
  refine ⟨_, became, comes', fun done => ⟨comes', ?_⟩⟩
  -- If nothing is left open, the address is not waiting.
  rcases placed with ⟨open_, -⟩ | placed
  · exact absurd done open_
  · exact placed

/-- A declaration that is met in some round is there at the end, its address bound. -/
theorem variable_lasts (ran : roundsFrom count left stmts session = .ok flat session')
    (met : (before, .item (.var var)) ∈ visitsFrom left stmts session) :
    ∃ last, .item (.var last) ∈ flat ∧ EndsOf (visitsFrom left stmts session) var last := by
  -- What comes of the declaration is handed on from round to round.
  obtain ⟨late, _, out, after, there, ⟨last, rfl, comes⟩, became, done, among⟩ :=
    exists_last (P := fun s => ∃ last, s = .item (.var last) ∧
      ComesOf (visitsFrom left stmts session) var last) ran
      (by
        rintro before _ out after met ⟨last, rfl, comes⟩ ran
        obtain ⟨later, became, comes', -⟩ := comes.next met (Session.ask_eq_ok.1 ran).1
        exact ⟨_, became ▸ List.mem_singleton_self _, later, rfl, comes'⟩)
      met ⟨var, rfl, rfl, rfl, rfl, rfl, .inl rfl⟩
  obtain ⟨later, became, -, ends⟩ := comes.next there (Session.ask_eq_ok.1 became).1
  exact ⟨later, among (became ▸ List.mem_singleton_self _), ends done⟩

end Resolve

end CrossAsm
