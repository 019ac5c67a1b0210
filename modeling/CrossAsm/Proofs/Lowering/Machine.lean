import CrossAsm.Isa.Encoding
import CrossAsm.Lowering

/-! Two readings of control flow: a machine that runs a flat list of statements from place to place,
and the effect that conditionals have by their structure alone. -/

namespace CrossAsm

/-- Where control goes after an instruction. -/
inductive Flow where
  /-- To the statement behind it. -/
  | next
  /-- To its operand if a flag has a state, and behind it if not. -/
  | branch (flag : Flag) (state : Bool)
  /-- To its operand. -/
  | jump
  /-- Out of the list. -/
  | away
  deriving DecidableEq

/-- Where control goes after an instruction of a mnemonic. -/
def Op.flow : Op → Flow
  | .bpl => .branch .n false
  | .bmi => .branch .n true
  | .bvc => .branch .v false
  | .bvs => .branch .v true
  | .bcc => .branch .c false
  | .bcs => .branch .c true
  | .bne => .branch .z false
  | .beq => .branch .z true
  | .jmp | .bra => .jump
  -- Where a call or a return goes is not a place in the list.
  | .jsr | .rts | .rti | .brk => .away
  | _ => .next

/-- A branch is taken in the state it is chosen for. -/
@[simp]
theorem Flag.branch_flow (flag : Flag) (state : Bool) :
    (flag.branch state).flow = .branch flag state := by
  -- Each flag has two branches, one for either state.
  cases flag <;> cases state <;> rfl

/-- A compare goes on to the statement behind it. -/
@[simp]
theorem Register.compare_flow (register : Register) : register.compare.flow = .next := by
  -- Compares are no branches, for any of the registers.
  cases register <;> rfl

/-- The compare of a register with a value, as a switch makes it. -/
def Site.compare (site : Site) (register : Register) (value : Expr) : Instruction :=
  .unresolved register.compare (.immediate value) site.ns site.pos

/-- A machine: the flags and registers that its states show, and what an instruction that does not
move control does to a state. -/
structure Machine (σ : Type) where
  /-- Whether a flag is set. -/
  flag : Flag → σ → Bool
  /-- What a register holds. -/
  register : Register → σ → UInt8
  /-- What an operand comes to. -/
  value : Expr → Int64
  /-- The state after an instruction. -/
  exec : Instruction → σ → σ
  /-- A compare sets the zero flag if the register has the low byte of the operand. -/
  compare_zero : ∀ (site : Site) (reg : Register) (e : Expr) (s : σ),
    flag .z (exec (site.compare reg e) s) = decide (register reg s = lowByte (value e).toInt)

/-- The name that a label statement binds. -/
def Stmt.labelName? : Stmt → Option String
  | .item (.label l) => some l.name
  | _ => none

/-- The label that an instruction goes to. -/
def Instruction.target? (line : Instruction) : Option String :=
  match line.operand with
  | .address (.name name) => some name
  | _ => none

/-- The place of a label in a list. -/
def labelIndex (program : List Stmt) (name : String) : Option Nat :=
  -- If a name is bound more than once, the first place counts.
  program.findIdx? fun stmt => stmt.labelName? = some name

namespace Machine

variable {σ : Type} (m : Machine σ)

/-- The place that an instruction goes to. -/
def goal (program : List Stmt) (line : Instruction) : Option Nat :=
  line.target?.bind (labelIndex program)

/-- The next place and state, if there is a flat statement in the place. -/
def step (program : List Stmt) (pc : Nat) (s : σ) : Option (Nat × σ) :=
  match program[pc]? with
  -- A label takes a place in the list, and does nothing.
  | some (.item (.label _)) => some (pc + 1, s)
  | some (.item (.instruction line)) =>
    match line.op.flow with
    | .next => some (pc + 1, m.exec line s)
    | .branch flag state =>
      if m.flag flag s = state then (goal program line).map (·, s) else some (pc + 1, s)
    | .jump => (goal program line).map (·, s)
    | .away => none
  -- Behind the last place, and at a tree, there is no next one.
  | _ => none

/-- From a place and a state, the machine falls off the end of a program in another state. -/
inductive FallsOff (program : List Stmt) : Nat → σ → σ → Prop
  | done (s : σ) : FallsOff program program.length s s
  | next {pc pc' : Nat} {s s' t : σ} (stepped : m.step program pc s = some (pc', s'))
    (rest : FallsOff program pc' s' t) : FallsOff program pc s t

end Machine

/-- What something does: the states it can end in, for each that it starts in. -/
abbrev Effect (σ : Type) : Type := σ → σ → Prop

namespace Effect

variable {σ : Type}

/-- Effects one after another. -/
def sequence : List (Effect σ) → Effect σ
  | [], s, t => s = t
  | first :: others, s, t => ∃ mid, first s mid ∧ sequence others mid t

/-- A body again and again, as long as a test holds before it. -/
inductive Loop (holds : σ → Bool) (body : Effect σ) : Effect σ
  | leave {s : σ} (fails : holds s = false) : Loop holds body s s
  | again {s mid t : σ} (stays : holds s = true) (once : body s mid)
    (rest : Loop holds body mid t) : Loop holds body s t

end Effect

namespace Machine

variable {σ : Type} (m : Machine σ)

/-- Whether the state is as a condition word says. -/
def meets (s : σ) : Condition → Bool
  | .plus | .positive | .greater => !m.flag .n s
  | .minus | .negative | .less => m.flag .n s
  | .overflow => m.flag .v s
  | .carry => m.flag .c s
  | .nonzero | .set | .true | .one => !m.flag .z s
  | .equal | .zero | .false | .unset | .clear => m.flag .z s

/-- Whether a test holds in a state. -/
def holds (test : Test) (s : σ) : Bool :=
  match test.polarity with
  | .is => m.meets s test.condition
  | .not => !m.meets s test.condition

/-- The cases of a switch in order: each one that is reached compares the register, and the first
that is equal, or the first default, runs. -/
def select (site : Site) (register : Register) : List (Block (Effect σ)) → Effect σ
  | [], s, t => s = t
  | block :: others, s, t =>
    match block.clause.kind with
    | .caseOf value =>
      -- The flags are those of the compare, whether the case runs or the next one is tried.
      let compared := m.exec (site.compare register value) s
      if m.register register s = lowByte (m.value value).toInt then
        Effect.sequence block.body compared t
      else
        select site register others compared t
    | .byDefault => Effect.sequence block.body s t
    | _ => False

/-- What a conditional does whose blocks hold effects. -/
def conditional (c : Conditional (Effect σ)) : Effect σ := fun s t =>
  let body := Effect.sequence c.first.body
  match c.form with
  | .ifThen =>
    ∃ test, c.first.clause.test? = some test ∧ if m.holds test s then body s t else s = t
  | .ifElse =>
    ∃ test otherwise, c.first.clause.test? = some test ∧ c.others = [otherwise] ∧
      if m.holds test s then body s t else Effect.sequence otherwise.body s t
  | .whileLoop =>
    ∃ test, c.first.clause.test? = some test ∧ Effect.Loop (m.holds test) body s t
  | .doWhile =>
    -- The body runs once before the test is asked.
    ∃ test mid, c.post = some test ∧ body s mid ∧ Effect.Loop (m.holds test) body mid t
  -- A loop without a test ends in no state.
  | .forever => False
  | .switch | .switchDefault =>
    ∃ register, c.first.clause.kind = .switchOn register ∧
      m.select ⟨c.ns, c.pos⟩ register c.others s t
  -- A case does something inside of its switch only.
  | .case | .default => False

mutual

/-- What a statement does by its structure. -/
def effect : Stmt → Effect σ
  | .item (.instruction line) => fun s t => t = m.exec line s
  | .conditional ⟨form, first, others, depth, post, ns⟩ =>
    m.conditional ⟨form, effectBlock first, effectBlocks others, depth, post, ns⟩
  | _ => fun _ _ => False

/-- A block with the effects of its statements. -/
def effectBlock : Block Stmt → Block (Effect σ)
  | ⟨clause, body, isOpen⟩ => ⟨clause, effects body, isOpen⟩

/-- Blocks with the effects of their statements. -/
def effectBlocks : List (Block Stmt) → List (Block (Effect σ))
  | [] => []
  | block :: others => effectBlock block :: effectBlocks others

/-- The effects of statements. -/
def effects : List Stmt → List (Effect σ)
  | [] => []
  | stmt :: others => effect stmt :: effects others

end

/-- What statements do one after another. -/
def effectAll (stmts : List Stmt) : Effect σ :=
  Effect.sequence (m.effects stmts)

end Machine

/-- A conditional has the blocks that its form asks for. -/
def Conditional.WellFormed {α : Type} (c : Conditional α) : Prop :=
  match c.form with
  | .ifThen => (∃ test, c.first.clause.kind = .ifTest test) ∧ c.others = []
  | .ifElse =>
    (∃ test, c.first.clause.kind = .ifTest test) ∧
      ∃ otherwise, c.others = [otherwise] ∧ otherwise.clause.kind = .otherwise
  | .whileLoop => (∃ test, c.first.clause.kind = .whileTest test) ∧ c.others = []
  | .doWhile => c.first.clause.kind = .doBlock ∧ c.others = [] ∧ ∃ test, c.post = some test
  | .forever => c.first.clause.kind = .forever ∧ c.others = []
  | .switch | .switchDefault =>
    -- All that a switch does is done by its cases.
    (∃ register, c.first.clause.kind = .switchOn register) ∧ c.first.body = [] ∧
      ∀ block ∈ c.others,
        (∃ value, block.clause.kind = .caseOf value) ∨ block.clause.kind = .byDefault
  | .case | .default => False

/-- A statement that is an instruction which leaves control alone, or a conditional that is well
formed and holds only such statements. -/
inductive Stmt.Structured : Stmt → Prop
  | instruction {line : Instruction} (straight : line.op.flow = .next) :
    Structured (.item (.instruction line))
  | conditional {c : Conditional Stmt} (formed : c.WellFormed)
    (inside : ∀ block ∈ c.blocks, ∀ stmt ∈ block.body, Structured stmt) :
    Structured (.conditional c)

/-- Statements none of which is a conditional. -/
def Flat (stmts : List Stmt) : Prop :=
  ∀ c, .conditional c ∉ stmts

/-- One conditional of a list is lowered in its place, and the session goes on. -/
inductive LowersOne : List Stmt × Session → List Stmt × Session → Prop
  | lower {before after code : List Stmt} {c : Conditional Stmt} {session session' : Session}
    (lowered : Lowering.conditional c session = .ok code session') :
    LowersOne (before ++ .conditional c :: after, session) (before ++ code ++ after, session')

end CrossAsm
