import CrossAsm.Compile
import CrossAsm.Proofs.Layout.TwoPass
import CrossAsm.Proofs.Nesting.Declarations
import CrossAsm.Proofs.Resolve.InPlace
import CrossAsm.Proofs.Resolve.Lasting

/-! References to variables: an instruction whose operand is the name of a variable is encoded with
the address where the variable is put, unless the variable has an initializer and a fixed address
elsewhere. -/

namespace CrossAsm

/-- The stages of a compilation that succeeds: what is nested, what it is resolved to, and what the
walk of layout ends in. -/
structure Compiled (inputs : List Input) (session session' : Session) (image : Image)
    (nested : List Stmt) (middle : Session) (flat : List Stmt) (final : Layout) : Prop where
  /-- The source is read and nested. -/
  nests : ∃ stmts, scan session.cpu inputs = .ok stmts ∧ nest stmts session = .ok nested middle
  /-- What is nested is resolved. -/
  resolves : resolve nested middle = .ok flat session'
  /-- What is resolved is laid out. -/
  assembled : Assembled session' flat final image

/-- A compilation that succeeds goes through all stages. -/
theorem compile_stages {inputs : List Input} {session session' : Session} {image : Image}
    (compiled : compile inputs session = .ok image session') :
    ∃ nested middle flat final, Compiled inputs session session' image nested middle flat final := by
  -- The stages one after another, each with the session that the one before it leaves.
  simp only [compile, bind_eq_ok, Session.ask_eq_ok] at compiled
  obtain ⟨stmts, _, ⟨scanned, rfl⟩, nested, middle, nests, flat, _, resolves, laid, rfl⟩ := compiled
  obtain ⟨last, ran, rfl⟩ := Layout.layout_eq_ok.1 laid
  obtain ⟨final, assembled⟩ := Layout.run_assembled ran
  exact ⟨nested, middle, flat, final, ⟨stmts, scanned, nests⟩, resolves, assembled⟩

/-- The name that the operand of an instruction is, if it is just a name. -/
def Instruction.reference? (line : Instruction) : Option String :=
  match line.operand.value? with
  | some (.name path) => some path
  | _ => none

/-- An instruction, met with some session, whose operand is just a name that leads to a variable
there, and what the instruction is settled as. -/
def Refers (visited : List (Session × Stmt)) (line resolved : Instruction) (ns : Namespace)
    (var : Variable) : Prop :=
  ∃ path ∈ line.reference?, ∃ visit ∈ visited, visit.2 = .item (.instruction line) ∧
    visit.1.scopes.lookup? path line.ns = some (ns, .var var) ∧
    Resolve.instruction visit.1 line = .ok (.settled (.instruction resolved))

/-- An operand that is just a name. -/
theorem Instruction.value?_of_reference? (line : Instruction) {path : String}
    (operand : path ∈ line.reference?) : line.operand.value? = some (.name path) := by
  -- A reference is an operand with the name for its value.
  unfold reference? at operand
  split at operand
  · rename_i here
    cases operand
    exact here
  · cases operand

/-- The value of an expression does not depend on where errors are reported. -/
theorem Addresses.eval_pos {addresses : Addresses} {e : Expr} {pos other : Pos}
    {value : Option Int64} (known : addresses.eval e pos = .ok value) :
    addresses.eval e other = .ok value := by
  -- The position is only put into an error.
  rw [Addresses.eval, mapError_eq_ok] at known ⊢
  exact known

/-- The value of an operand that is known. -/
theorem Deferred.operandValue_eq_ok {addresses : Addresses} {line : Instruction} {e : Expr}
    (operand : line.operand.value? = some e) {value : Int64} (pos : Pos) :
    Deferred.operandValue addresses line = .ok (some (some value)) ↔
      addresses.eval e pos = .ok (some value) := by
  -- There is one value in the operand, and it is asked for.
  simp only [Deferred.operandValue, operand, except_bind_eq_ok, except_pure_eq_ok,
    Option.map_eq_some_iff, Option.some.injEq]
  constructor
  · rintro ⟨_, known, other, rfl, rfl⟩
    exact Addresses.eval_pos known
  · intro known
    exact ⟨some value, Addresses.eval_pos known, value, rfl, rfl⟩

/-- The operand of a reference is bound to what the name of the variable is bound to. -/
theorem Refers.bound {visited : List (Session × Stmt)} {line resolved : Instruction}
    {ns : Namespace} {var : Variable} (refers : Refers visited line resolved ns var) :
    ∃ before path value, (before, .item (.instruction line)) ∈ visited ∧
      (Resolve.viewOf before line.ns line.pos).lookup? path = some (ns, .var var) ∧
      (Resolve.viewOf before line.ns line.pos).bind (.name path) = .ok (some value) ∧
      resolved.operand.value? = some value := by
  -- The operand was bound when the instruction was settled.
  obtain ⟨path, operand, ⟨before, _⟩, met, rfl, inScope, settled⟩ := refers
  have operand := line.value?_of_reference? operand
  obtain ⟨bound, mode, known, -, rfl⟩ := Resolve.instruction_settled settled
  simp only [Resolve.boundOperand, operand, except_bind_eq_ok, except_pure_eq_ok,
    Option.map_eq_some_iff] at known
  obtain ⟨_, known, value, rfl, rfl⟩ := known
  refine ⟨before, path, value, met, inScope, known, ?_⟩
  rw [Operand.value?_map, operand, Option.map_some]

section Stages

variable {inputs : List Input} {session session' : Session} {image : Image} {nested flat : List Stmt}
  {middle : Session} {final : Layout} {line resolved : Instruction} {ns : Namespace}
  {var : Variable}

/-- Every session that is met comes of the nested one. -/
theorem Compiled.comes (stages : Compiled inputs session session' image nested middle flat final)
    (tidy : session.scopes.Tidy) {before : Session} {s : Stmt}
    (met : (before, s) ∈ Resolve.visits nested middle) :
    middle.scopes.Tidy ∧ middle.scopes.Comes session'.labels before.scopes := by
  obtain ⟨stmts, -, nests⟩ := stages.nests
  -- Nesting leaves a tidy table, and resolving goes on from there.
  have tidied := nest_tidy nests tidy
  obtain ⟨toward, on⟩ := (Resolve.visit_onward stages.resolves tidied).2 before s met
  exact ⟨tidied, fun ns name => (toward.comes ns name).mono on.labels⟩

/-- A variable that is referred to stands in the namespace where it is found. -/
theorem Compiled.inside (stages : Compiled inputs session session' image nested middle flat final)
    (tidy : session.scopes.Tidy)
    (refers : Refers (Resolve.visits nested middle) line resolved ns var) : var.ns = ns := by
  -- Variables are entered in the namespaces that they are declared in, which resolving keeps.
  obtain ⟨path, -, ⟨before, _⟩, met, rfl, inScope, -⟩ := refers
  obtain ⟨tidied, comes⟩ := stages.comes tidy met
  exact (tidied.comes comes).inside (ScopeTable.get?_of_lookup? inScope)

/-- What a reference is settled as is laid out. -/
theorem Compiled.mem_flat (stages : Compiled inputs session session' image nested middle flat final)
    (tidy : session.scopes.Tidy)
    (refers : Refers (Resolve.visits nested middle) line resolved ns var) :
    .item (.instruction resolved) ∈ flat := by
  -- A statement that has been settled is no more changed by later rounds.
  obtain ⟨path, -, ⟨before, _⟩, met, rfl, -, settled⟩ := refers
  exact Resolve.instruction_lasts stages.resolves (stages.comes tidy met).1 met settled

/-- What the program declares outside of inline functions is put in place. -/
theorem Compiled.putInPlace
    (stages : Compiled inputs session session' image nested middle flat final) {s : Stmt}
    (inside : s ∈ nested) (declares : s.Declares var) :
    PutInPlace (Resolve.visits nested middle) var := by
  -- What is among the nested statements is met by the first round.
  obtain ⟨before, met⟩ := Resolve.exists_visit stages.resolves inside
  exact Resolve.putInPlace_of_declares stages.resolves met declares

/-- A declaration that is met is on record, bound to the address that is recorded; without an
initializer, that is the value of its own address. -/
theorem Compiled.exists_record
    (stages : Compiled inputs session session' image nested middle flat final)
    (declared : PutInPlace (Resolve.visits nested middle) var) :
    ∃ record ∈ if var.init.isSome then image.data else image.ram, record.name = var.key ∧
      Entries.get? var.key final.addresses = some record.address ∧
      (var.address.isSome → ∃ value,
        Resolve.BoundTo (Resolve.visits nested middle) var value ∧
        (var.init = none → final.addresses.eval value var.pos =
          .ok (some (Int64.ofNat record.address.toNat)))) := by
  have assembled := stages.assembled
  obtain ⟨⟨before, _⟩, met, rfl⟩ := declared
  obtain ⟨last, there, ends⟩ := Resolve.variable_lasts stages.resolves met
  obtain ⟨record, recorded⟩ := Layout.walk_records (Tracks.start session') assembled.walked
    Layout.known_start there
  -- What is laid out comes of the declaration, so it has the same key.
  have key : record.name = var.key := by
    rw [recorded.name, Variable.key, Variable.key, ends.ns, ends.name]
  -- The record is in one of the two lists of the image.
  have placed : record ∈ if var.init.isSome then image.data else image.ram := by
    rw [assembled.records.1, assembled.records.2, ← ends.init]
    exact recorded.place
  have listed : record ∈ image.ram ++ image.data := by
    split at placed
    · exact List.mem_append_right _ placed
    · exact List.mem_append_left _ placed
  refine ⟨record, placed, key, key ▸ assembled.bound.2 record listed, fun fixed => ?_⟩
  -- Layout evaluates the address that the declaration was bound to.
  rcases ends.bound with ⟨free, -⟩ | ⟨value, here, bound⟩
  · rw [free] at fixed
    cases fixed
  · refine ⟨value, bound, fun plain => ?_⟩
    have none : last.init = none := by
      have same := ends.init
      rw [plain] at same
      simpa using same
    exact Addresses.eval_pos (recorded.fixed none value here)

/-- A reference to a variable without a fixed address has the address of the variable as its
operand. -/
theorem Refers.operandValue_free {visited : List (Session × Stmt)}
    (refers : Refers visited line resolved ns var) (free : var.address = none)
    {addresses : Addresses} {address : UInt16}
    (bound : Entries.get? (ns.qualify var.name) addresses = some address) :
    Deferred.operandValue addresses resolved =
      .ok (some (some (Int64.ofNat address.toNat))) := by
  -- The variable has no value of its own, so that its name is bound to its key.
  obtain ⟨before, path, value, -, inScope, known, operand⟩ := refers.bound
  -- Such a name is bound to the key that layout binds to an address.
  have symbolic : value = .ref (ns.qualify var.name) := View.bind_name_free inScope free known
  rw [Deferred.operandValue_eq_ok operand line.pos, symbolic]
  rw [Addresses.eval, mapError_eq_ok]
  simp [Expr.eval, bound]

/-- A reference to a variable with a fixed address has the value of that as its operand. -/
theorem Compiled.operandValue_fixed
    (stages : Compiled inputs session session' image nested middle flat final)
    (tidy : session.scopes.Tidy) (unpinned : middle.scopes.Unpinned session'.labels)
    (refers : Refers (Resolve.visits nested middle) line resolved ns var) {value : Expr}
    (bound : Resolve.BoundTo (Resolve.visits nested middle) var value) :
    resolved.operand.value? = some value := by
  -- The reference and the declaration are bound at different times.
  obtain ⟨before, path, value', met, inScope, known, operand⟩ := refers.bound
  obtain ⟨e, later, s, fixed, there, known'⟩ := bound
  obtain ⟨tidied, early⟩ := stages.comes tidy met
  obtain ⟨-, late⟩ := stages.comes tidy there
  -- Both times the address is bound in the namespace of the variable.
  have inside : (Resolve.viewOf later var.ns var.pos).ns = ns := stages.inside tidy refers
  have same : value' = value :=
    View.bind_name_fixed tidied unpinned early late inScope fixed inside known known'
  rw [operand, same]

end Stages

/-- In a program that is compiled, every variable that is declared outside of inline functions is put
in place. Take an instruction whose operand is the name of a variable that is put in place. Then the
variable is on record, in ROM if it has an initializer and else in RAM, and the instruction is
encoded with the recorded address if and only if the variable is not both initialized and fixed at
some other address. -/
theorem operand_eq_record_iff {inputs : List Input} {session session' : Session} {image : Image}
    (tidy : session.scopes.Tidy) (compiled : compile inputs session = .ok image session') :
    ∃ nested middle flat final, Compiled inputs session session' image nested middle flat final ∧
      (∀ s ∈ nested, ∀ var, s.Declares var → PutInPlace (Resolve.visits nested middle) var) ∧
      (middle.scopes.Unpinned session'.labels →
        ∀ line resolved ns var, Refers (Resolve.visits nested middle) line resolved ns var →
        PutInPlace (Resolve.visits nested middle) var →
        .item (.instruction resolved) ∈ flat ∧
        ∃ record ∈ if var.init.isSome then image.data else image.ram,
          record.name = ns.qualify var.name ∧
          (Deferred.operandValue final.addresses resolved =
              .ok (some (some (Int64.ofNat record.address.toNat))) ↔
            (var.init.isSome → var.address.isSome → ∃ value,
              Resolve.BoundTo (Resolve.visits nested middle) var value ∧
              final.addresses.eval value var.pos =
                .ok (some (Int64.ofNat record.address.toNat))))) := by
  -- A variable without an address has the one on record; with one it has that value.
  obtain ⟨nested, middle, flat, final, stages⟩ := compile_stages compiled
  refine ⟨nested, middle, flat, final, stages, fun s inside var => stages.putInPlace inside, ?_⟩
  intro unpinned line resolved ns var refers declared
  refine ⟨stages.mem_flat tidy refers, ?_⟩
  obtain ⟨record, placed, named, bound, plain⟩ := stages.exists_record declared
  have key : var.key = ns.qualify var.name := by
    rw [Variable.key, stages.inside tidy refers]
  refine ⟨record, placed, named.trans key, ?_⟩
  cases fixed : var.address with
  | none =>
    -- The operand is the address that layout gives the variable, whatever that is.
    have encoded := refers.operandValue_free fixed (key ▸ bound)
    simp [encoded]
  | some e =>
    obtain ⟨value, addressed, located⟩ := plain (by rw [fixed]; rfl)
    -- The operand is the value of the fixed address, and so is the record without an initializer.
    have operand : ∀ {other}, Resolve.BoundTo (Resolve.visits nested middle) var other →
        (Deferred.operandValue final.addresses resolved =
            .ok (some (some (Int64.ofNat record.address.toNat))) ↔
          final.addresses.eval other var.pos =
            .ok (some (Int64.ofNat record.address.toNat))) := fun other =>
      Deferred.operandValue_eq_ok (stages.operandValue_fixed tidy unpinned refers other) var.pos
    constructor
    · intro encoded _ _
      exact ⟨value, addressed, (operand addressed).1 encoded⟩
    · intro agrees
      cases filled : var.init with
      | none => exact (operand addressed).2 (located filled)
      | some init =>
        obtain ⟨other, bound, evaluated⟩ := agrees (by rw [filled]; rfl) rfl
        exact (operand bound).2 evaluated

/-! ### A variable in two places -/

deriving instance DecidableEq for FunctionSymbol, Symbol, Resolve.Outcome

/-- Whether a question has a given answer can be decided. -/
instance decidableOk {ε α : Type} [DecidableEq α] (x : Except ε α) (a : α) :
    Decidable (x = .ok a) :=
  match x with
  | .ok b => decidable_of_iff (b = a) (by simp)
  | .error _ => .isFalse nofun

/-- Whether an instruction refers to a variable can be decided. -/
instance decidableRefers (visited : List (Session × Stmt)) (line resolved : Instruction)
    (ns : Namespace) (var : Variable) : Decidable (Refers visited line resolved ns var) :=
  inferInstanceAs (Decidable (∃ path ∈ line.reference?, ∃ visit ∈ visited,
    visit.2 = .item (.instruction line) ∧
    visit.1.scopes.lookup? path line.ns = some (ns, .var var) ∧
    Resolve.instruction visit.1 line = .ok (.settled (.instruction resolved))))

/-- Whether a declaration is put in place can be decided. -/
instance decidablePutInPlace (visited : List (Session × Stmt)) (var : Variable) :
    Decidable (PutInPlace visited var) :=
  inferInstanceAs (Decidable (∃ visit ∈ visited, visit.2 = .item (.var var)))

/-- What a step gives and the session behind it, if it succeeds. -/
def answer? {α : Type} : EStateM.Result Error Session α → Option (α × Session)
  | .ok a session => some (a, session)
  | .error .. => none

/-- A variable with a fixed address and an initializer, and a reference to it. -/
def fixedAndFilled : List Input :=
  [.directive (.romOrg 0x8000 none) default,
   .code ⟨"", 0, "byte x : 0x2000 = 1\nfunction main() \x7b\nlda x\n\x7d\n"⟩]

/-- The variable. -/
def fixedAndFilledVariable : Variable where
  type := "byte"
  name := "x"
  shared := false
  dim := .scalar
  address := some (.number 0x2000)
  init := some ⟨.values [.number 1], ⟨"", 0, 18⟩⟩
  ns := .global
  size := none
  pos := ⟨"", 0, 0⟩

/-- The reference. -/
def fixedAndFilledReference : Instruction :=
  .unresolved .lda (.address (.name "x")) ⟨["main"]⟩ ⟨"", 2, 0⟩

/-- What the reference is settled as. -/
def fixedAndFilledSettled : Instruction :=
  { fixedAndFilledReference with operand := .address (.number 0x2000), mode := some .absolute }

/-- The program is compiled and the variable is put in ROM, but the reference to it is encoded with
the fixed address. -/
theorem fixedAndFilled_apart :
    ∃ image session' nested middle flat final,
      compile fixedAndFilled { cpu := .nmos } = .ok image session' ∧
      Compiled fixedAndFilled { cpu := .nmos } session' image nested middle flat final ∧
      Refers (Resolve.visits nested middle) fixedAndFilledReference fixedAndFilledSettled .global
        fixedAndFilledVariable ∧
      PutInPlace (Resolve.visits nested middle) fixedAndFilledVariable ∧
      .item (.instruction fixedAndFilledSettled) ∈ flat ∧
      image.data = [⟨"x", 0x8000, 1⟩] ∧
      Deferred.operandValue final.addresses fixedAndFilledSettled ≠ .ok (some (some 0x8000)) := by
  -- The stages are evaluated, and the theorem is used from right to left.
  have nesting : ((scan .nmos fixedAndFilled).toOption.bind fun stmts =>
      (answer? (nest stmts { cpu := .nmos })).map fun done =>
        decide (Refers (Resolve.visits done.1 done.2) fixedAndFilledReference
          fixedAndFilledSettled .global fixedAndFilledVariable ∧
          PutInPlace (Resolve.visits done.1 done.2) fixedAndFilledVariable)) = some true := by
    decide +kernel
  have compiling : ((answer? (compile fixedAndFilled { cpu := .nmos })).map fun done =>
      decide (done.1.data = [⟨"x", 0x8000, 1⟩] ∧ done.2.labels = 0)) = some true := by
    decide +kernel
  -- The program is compiled, to an image with one record.
  cases compiled : compile fixedAndFilled { cpu := .nmos } with
  | error e session' => simp [compiled, answer?] at compiling
  | ok image session' =>
    simp only [compiled, answer?, Option.map_some, Option.some.injEq, decide_eq_true_eq]
      at compiling
    obtain ⟨data, labels⟩ := compiling
    obtain ⟨nested, middle, flat, final, stages, -, whenever⟩ :=
      operand_eq_record_iff ScopeTable.tidy_empty compiled
    -- The declaration and the reference are met on the way.
    obtain ⟨stmts, scanned, nests⟩ := stages.nests
    simp only [scanned, nests, answer?, Except.toOption, Option.bind_some, Option.map_some,
      Option.some.injEq, decide_eq_true_eq] at nesting
    obtain ⟨refers, declared⟩ := nesting
    -- No label is minted, so none has the name of a variable.
    have unpinned : middle.scopes.Unpinned session'.labels := by
      intro count var less
      omega
    obtain ⟨there, record, placed, named, encoded⟩ :=
      whenever unpinned _ _ _ _ refers declared
    refine ⟨image, session', nested, middle, flat, final, rfl, stages, refers, declared, there, data,
      ?_⟩
    -- The record is the only one, and the fixed address has another value.
    have address : record.address = 0x8000 := by
      simp only [fixedAndFilledVariable, Option.isSome_some, if_true, data,
        List.mem_singleton] at placed
      rw [placed]
    -- If the operand were the record, it would be the value of the fixed address.
    rw [address] at encoded
    intro same
    obtain ⟨value, ⟨e, before, s, fixed, -, bound⟩, evaluated⟩ := encoded.1 same rfl rfl
    cases fixed
    cases bound
    cases evaluated

end CrossAsm
