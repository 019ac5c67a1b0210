import CrossAsm.Proofs.Nesting.Declarations
import CrossAsm.Proofs.Resolve.Encodable
import CrossAsm.Proofs.Resolve.WellNested

/-! The account of labels. The labels that lowering mints are owed by the conditionals of the trees,
and wherever one is minted it is also bound. Neither sum changes from round to round, however far the
lowering has come, so when no conditional is left, all that was owed is minted and bound once. -/

namespace CrossAsm

/-! ### The parts of trees -/

namespace Stmt

mutual

/-- A statement and all that stand in it at any depth, but for those of inline functions. -/
def parts : Stmt → List Stmt
  | .item i => [.item i]
  | .function ⟨decl, body, ns⟩ =>
    .function ⟨decl, body, ns⟩ :: if decl.isInline then [] else partsAll body
  | .conditional ⟨form, first, others, depth, post, ns⟩ =>
    .conditional ⟨form, first, others, depth, post, ns⟩ :: (partsOf first ++ partsEach others)

/-- The parts of a block. -/
def partsOf : Block Stmt → List Stmt
  | ⟨_, body, _⟩ => partsAll body

/-- The parts of blocks. -/
def partsEach : List (Block Stmt) → List Stmt
  | [] => []
  | block :: others => partsOf block ++ partsEach others

/-- The parts of statements. -/
def partsAll : List Stmt → List Stmt
  | [] => []
  | s :: others => parts s ++ partsAll others

end

@[simp]
theorem parts_item (i : Item) : parts (.item i) = [.item i] := by
  rw [parts]

@[simp]
theorem partsAll_nil : partsAll [] = [] := by
  rw [partsAll]

@[simp]
theorem partsAll_cons (s : Stmt) (others : List Stmt) :
    partsAll (s :: others) = parts s ++ partsAll others := by
  rw [partsAll]

@[simp]
theorem partsAll_append (first second : List Stmt) :
    partsAll (first ++ second) = partsAll first ++ partsAll second := by
  -- By induction on the first statements.
  induction first with
  | nil => simp
  | cons s others ih => simp [ih]

@[simp]
theorem partsOf_eq (block : Block Stmt) : partsOf block = partsAll block.body := by
  rw [partsOf]

/-- A statement is one of its parts. -/
theorem mem_parts (s : Stmt) : s ∈ parts s := by
  -- It is the first one.
  cases s <;> simp [parts]

/-- The parts of blocks are those of their statements. -/
theorem partsEach_eq (blocks : List (Block Stmt)) :
    partsEach blocks = partsAll (blocks.flatMap Block.body) := by
  -- By induction on the blocks.
  induction blocks with
  | nil => simp [partsEach]
  | cons block others ih => simp [partsEach, ih]

/-- An inline function is its only part. -/
theorem parts_inline {func : Function Stmt} (isInline : func.decl.isInline = true) :
    parts (.function func) = [.function func] := by
  -- Its statements are not emitted where it stands.
  rw [parts, if_pos isInline]

/-- The parts of a subroutine are itself and those of its statements. -/
theorem parts_subroutine {func : Function Stmt} (subroutine : func.decl.isInline = false) :
    parts (.function func) = .function func :: partsAll func.body := by
  -- Its statements are emitted where it stands.
  rw [parts, if_neg (by simp [subroutine])]

/-- The parts of a well-formed conditional are itself and those of what it governs. -/
theorem parts_conditional {cond : Conditional Stmt} (formed : cond.WellFormed) :
    parts (.conditional cond) = .conditional cond :: partsAll cond.governed := by
  -- The parts are those of all blocks; which of them the conditional governs, its form says.
  have blocks : parts (.conditional cond) =
      .conditional cond :: (partsAll cond.first.body ++ partsAll (cond.others.flatMap Block.body)) := by
    rw [parts, partsOf_eq, partsEach_eq]
  rw [blocks, Conditional.governed]
  unfold Conditional.WellFormed at formed
  -- A form without a second block has no others, and a switch has nothing in the first.
  split at formed <;> rename_i form <;> rw [form]
  · simp [formed.2]
  · obtain ⟨-, otherwise, only, -⟩ := formed
    simp [only]
  · simp [formed.2]
  · simp [formed.2.1]
  · simp [formed.2]
  · simp [formed.2.1]
  · simp [formed.2.1]
  · exact formed.elim
  · exact formed.elim

end Stmt

open Stmt (parts partsAll parts_item partsAll_nil partsAll_cons partsAll_append)

/-! ### What is owed and what is bound -/

/-- The number of labels that a test needs for itself. -/
def Test.labels (test : Test) : Nat :=
  match test.distance with
  | .near => 0
  | .far => 1

/-- The number of labels that a conditional is lowered with: one or two for its form, or one for each
case and the end of a switch, and one more for a far test. -/
def Conditional.labels (cond : Conditional Stmt) : Nat :=
  match cond.form with
  | .ifThen => 1 + cond.first.clause.test?.elim 0 Test.labels
  | .ifElse | .whileLoop => 2 + cond.first.clause.test?.elim 0 Test.labels
  | .doWhile => 1 + cond.post.elim 0 Test.labels
  | .forever => 1
  | .switch | .switchDefault => cond.others.countP (·.clause.form = .case) + 1
  | .case | .default => 0

/-- The number of labels that lowering a statement mints, apart from those of the statements in it. -/
def Stmt.owes : Stmt → Nat
  | .conditional cond => cond.labels
  | _ => 0

/-- The name that a statement binds, or binds when it is lowered: that of a label or a subroutine. -/
def Stmt.binds? : Stmt → Option String
  | .item i => Stmt.labelName? (.item i)
  | .function func => if func.decl.isInline then none else some func.decl.name
  | .conditional _ => none

/-- How often a statement binds the minted label of a number. -/
def Stmt.bindsMinted (count : Nat) (s : Stmt) : Nat :=
  if s.binds? = some (Session.labelName count) then 1 else 0

/-- The sum over all parts of statements. -/
def tally (f : Stmt → Nat) (stmts : List Stmt) : Nat :=
  total ((partsAll stmts).map f)

/-- Instructions count nothing in a sum, and labels count by their names. -/
structure ByName (f : Stmt → Nat) (g : String → Nat) : Prop where
  /-- Instructions count nothing. -/
  instruction : ∀ line, f (.item (.instruction line)) = 0
  /-- Labels count by their names. -/
  label : ∀ l, f (.item (.label l)) = g l.name

/-- Labels and instructions owe nothing. -/
theorem owes_byName : ByName Stmt.owes fun _ => 0 :=
  ⟨fun _ => rfl, fun _ => rfl⟩

/-- Labels bind their names. -/
theorem bindsMinted_byName (count : Nat) :
    ByName (Stmt.bindsMinted count) fun name => if name = Session.labelName count then 1 else 0 :=
  ⟨fun _ => rfl, fun l => by simp [Stmt.bindsMinted, Stmt.binds?, Stmt.labelName?]⟩

section Tally

variable {f : Stmt → Nat} {g : String → Nat}

@[simp]
theorem tally_nil : tally f [] = 0 := by
  simp [tally]

@[simp]
theorem tally_append (first second : List Stmt) :
    tally f (first ++ second) = tally f first + tally f second := by
  -- What is counted is summed over the parts.
  simp [tally]

@[simp]
theorem tally_item (item : Item) (others : List Stmt) :
    tally f (.item item :: others) = f (.item item) + tally f others := by
  -- It is its only part.
  simp [tally]

/-- A subroutine counts for itself and for its statements. -/
theorem tally_subroutine {func : Function Stmt} (subroutine : func.decl.isInline = false) :
    tally f [.function func] = f (.function func) + tally f func.body := by
  -- It is one of its parts.
  simp [tally, Stmt.parts_subroutine subroutine]

/-- A well-formed conditional counts for itself and for what it governs. -/
theorem tally_conditional {cond : Conditional Stmt} (formed : cond.WellFormed) :
    tally f [.conditional cond] = f (.conditional cond) + tally f cond.governed := by
  -- It is one of its parts, and the others are those of its blocks.
  simp [tally, Stmt.parts_conditional formed]

end Tally

/-! ### The code of a conditional -/

section Code

variable {f : Stmt → Nat} {g : String → Nat} (byName : ByName f g) (site : Site)
include byName

/-- A label counts by its name. -/
theorem ByName.site_label (name : String) (others : List Stmt) :
    tally f (site.label name :: others) = g name + tally f others := by
  -- The item is counted for its label.
  rw [Site.label, tally_item, byName.label]

/-- An instruction counts nothing. -/
theorem ByName.site_inst (op : Op) (operand : Operand Expr) (others : List Stmt) :
    tally f (site.inst op operand :: others) = tally f others := by
  -- The item has no label.
  rw [Site.inst, tally_item, byName.instruction, Nat.zero_add]

/-- A branch counts nothing. -/
theorem ByName.site_goto (op : Op) (target : String) (others : List Stmt) :
    tally f (site.goto op target :: others) = tally f others :=
  byName.site_inst site _ _ _

/-- A jump counts nothing. -/
theorem ByName.site_jump (target : String) (others : List Stmt) :
    tally f (site.jump target :: others) = tally f others :=
  byName.site_inst site _ _ _

/-- A test that leaves counts for its own label. -/
theorem ByName.leaveCode (test : Test) (target past : String) :
    tally f (site.leaveCode test target past) = total ((Site.ownLabels test past).map g) := by
  -- A far test has a label of its own, a near one has none.
  unfold Site.leaveCode Site.ownLabels
  cases test.distance with
  | near => simp [byName.site_goto]
  | far => simp [byName.site_goto, byName.site_jump, byName.site_label]

/-- The cases of a switch count for the labels to which they go on, and for what is in them. -/
theorem ByName.casesCode {register : Register} {done : String} {blocks : List (Block Stmt)}
    {nexts : List String} {code : List Stmt} (cases : site.CasesCode register done blocks nexts code) :
    tally f code = total (nexts.map g) + tally f (blocks.flatMap Block.body) := by
  -- Around each body stand instructions, and behind that of a case its label.
  induction cases with
  | nil => simp
  | caseOf kind rest ih =>
    simp only [tally_append, tally_item, byName.instruction, byName.site_goto, byName.site_jump,
      byName.site_label, tally_nil, ih, List.map_cons, total_cons, List.flatMap_cons]
    omega
  | @byDefault block blocks _ _ _ _ ih =>
    have behind : tally f (if blocks.isEmpty then [] else [site.jump done]) = 0 := by
      split <;> simp [byName.site_jump]
    simp only [tally_append, behind, ih, List.flatMap_cons]
    omega

/-- The code of a conditional counts for the labels minted for it, and for what it governs. -/
theorem ByName.lowered {cond : Conditional Stmt} {names : List String} {code : List Stmt}
    (lowered : LoweredTo cond names code) :
    tally f code = total (names.map g) + tally f cond.governed := by
  unfold Conditional.governed
  -- Each form puts its labels and jumps around the bodies that it governs.
  have site_label := byName.site_label cond.site
  have site_jump := byName.site_jump cond.site
  have leaveCode := byName.leaveCode cond.site
  cases lowered with
  | ifThen form tested =>
    -- One label behind the body.
    simp only [form, tally_append, leaveCode, site_label, tally_nil, List.map_cons, total_cons]
    omega
  | ifElse form tested only =>
    -- Two labels, and the bodies between them.
    simp only [form, only, tally_append, leaveCode, site_jump, site_label, tally_nil, List.map_cons,
      total_cons, List.take_succ_cons, List.take_zero, List.flatMap_cons, List.flatMap_nil]
    omega
  | whileLoop form tested =>
    -- Two labels around the loop.
    simp only [form, List.cons_append, tally_append, leaveCode, site_jump, site_label, tally_nil,
      List.map_cons, total_cons]
    omega
  | doWhile form tested =>
    -- One label at the head.
    simp only [form, List.cons_append, tally_append, leaveCode, site_label, List.map_cons, total_cons]
    omega
  | forever form =>
    simp only [form, List.cons_append, tally_append, site_jump, site_label, tally_nil, List.map_cons,
      List.map_nil, total_cons, total_nil]
    omega
  | switch form selected cases =>
    -- One label for each case, and one for the end.
    have inside := byName.casesCode cond.site cases
    rcases form with form | form
    all_goals
      simp only [form, tally_append, inside, site_label, tally_nil, List.map_append, List.map_cons,
        List.map_nil, total_append, total_cons, total_nil]
      omega

end Code

/-- A test has a label of its own if it is far. -/
theorem Site.length_ownLabels (test : Test) (past : String) :
    (Site.ownLabels test past).length = test.labels := by
  -- A near test has none.
  unfold Site.ownLabels Test.labels
  cases test.distance <;> rfl

/-- A case goes on to a label, and a default does not. -/
theorem Site.CasesCode.length_eq {site : Site} {register : Register} {done : String}
    {blocks : List (Block Stmt)} {nexts : List String} {code : List Stmt}
    (cases : site.CasesCode register done blocks nexts code) :
    nexts.length = blocks.countP (·.clause.form = .case) := by
  -- By induction on the blocks.
  induction cases with
  | nil => rfl
  | caseOf kind _ ih => simp [Clause.form, kind, ih]
  | byDefault kind _ ih => simp [Clause.form, kind, ih]

/-- As many labels are minted for a conditional as it owes. -/
theorem LoweredTo.length_eq {cond : Conditional Stmt} {names : List String} {code : List Stmt}
    (lowered : LoweredTo cond names code) : names.length = cond.labels := by
  -- By the form: each has its labels, and those of its test if that is far.
  unfold Conditional.labels
  cases lowered with
  | ifThen form tested =>
    simp only [form, tested, List.length_cons, Site.length_ownLabels, Option.elim]
    omega
  | ifElse form tested =>
    simp only [form, tested, List.length_cons, Site.length_ownLabels, Option.elim]
    omega
  | whileLoop form tested =>
    simp only [form, tested, List.length_cons, Site.length_ownLabels, Option.elim]
    omega
  | doWhile form tested =>
    -- The loop is left on the opposite test, which is as far.
    simp only [form, tested, List.length_cons, Site.length_ownLabels, Option.elim]
    exact Nat.add_comm _ _
  | forever form => rw [form, List.length_singleton]
  | switch form selected cases =>
    rcases form with form | form <;> simp [form, cases.length_eq]

/-! ### The account of one turn -/

/-- How often a number is one of those from a first one up to a last one: once or not at all. -/
def within (first last number : Nat) : Nat :=
  if first ≤ number ∧ number < last then 1 else 0

/-- Up to the first number there is none. -/
theorem within_self (first number : Nat) : within first first number = 0 :=
  if_neg (by omega)

/-- Up to the next number there is only the first one. -/
theorem within_succ (first number : Nat) :
    within first (first + 1) number = if first = number then 1 else 0 := by
  -- The number is the first one or none.
  unfold within
  by_cases same : first = number
  · rw [if_pos same, if_pos (by omega)]
  · rw [if_neg same, if_neg (by omega)]

/-- A number is one of the first ones or of those behind them. -/
theorem within_add {first middle last : Nat} (early : first ≤ middle) (late : middle ≤ last)
    (number : Nat) :
    within first middle number + within middle last number = within first last number := by
  -- By where the number is: among the first, among the others, or among none.
  unfold within
  by_cases inFirst : first ≤ number ∧ number < middle
  · rw [if_pos inFirst, if_neg (by omega), if_pos (by omega)]
  · rw [if_neg inFirst, Nat.zero_add]
    by_cases inLast : middle ≤ number ∧ number < last
    · rw [if_pos inLast, if_pos (by omega)]
    · rw [if_neg inLast, if_neg (by omega)]

/-- Among the labels of numbers one after another is that of a number once, if it is one of them. -/
theorem total_labelNames (first length number : Nat) :
    total (((List.range' first length).map Session.labelName).map fun name =>
      if name = Session.labelName number then 1 else 0) = within first (first + length) number := by
  -- By induction on the number of labels.
  induction length generalizing first with
  | zero => exact (within_self first number).symm
  | succ length ih =>
    rw [List.range'_succ, List.map_cons, List.map_cons, total_cons, ih,
      ← within_add (Nat.le_succ first) (by omega), within_succ]
    simp only [Session.labelName_inj, Nat.add_assoc, Nat.add_comm 1]

/-- Each label that is minted is among the names once. -/
theorem Session.Mints.total_eq {session later : Session} {names : List String}
    (mints : session.Mints names later) (count : Nat) :
    total (names.map fun name => if name = Session.labelName count then 1 else 0) =
      within session.labels later.labels count := by
  -- The minted names are those of the numbers in between, each of which is there once.
  rw [mints.counted, mints.named, Session.fresh, total_labelNames, List.length_map,
    List.length_range']

/-- The labels that are minted while other statements come in place of some are no longer owed, and
each of them is bound. -/
structure Accounts (stmts : List Stmt) (session : Session) (stmts' : List Stmt)
    (session' : Session) : Prop where
  /-- Labels are only added. -/
  grows : session.labels ≤ session'.labels
  /-- What is minted was owed. -/
  owed : session'.labels + tally Stmt.owes stmts' = session.labels + tally Stmt.owes stmts
  /-- What is minted is bound. -/
  bound : ∀ count, tally (Stmt.bindsMinted count) stmts' =
    tally (Stmt.bindsMinted count) stmts + within session.labels session'.labels count

namespace Accounts

variable {stmts stmts' stmts'' others others' : List Stmt} {session session' session'' : Session}

/-- Nothing is minted. -/
theorem idle (owed : tally Stmt.owes stmts' = tally Stmt.owes stmts)
    (bound : ∀ count, tally (Stmt.bindsMinted count) stmts' = tally (Stmt.bindsMinted count) stmts) :
    Accounts stmts session stmts' session :=
  ⟨Nat.le_refl _, by rw [owed], fun count => by rw [bound, within_self, Nat.add_zero]⟩

/-- One after the other. -/
theorem trans (early : Accounts stmts session stmts' session')
    (late : Accounts stmts' session' stmts'' session'') :
    Accounts stmts session stmts'' session'' := by
  -- The labels that are bound in both steps are added up.
  refine ⟨Nat.le_trans early.grows late.grows, late.owed.trans early.owed, fun count => ?_⟩
  rw [late.bound, early.bound, Nat.add_assoc, within_add early.grows late.grows]

/-- One beside the other. -/
theorem append (first : Accounts stmts session stmts' session')
    (second : Accounts others session' others' session'') :
    Accounts (stmts ++ others) session (stmts' ++ others') session'' := by
  -- The sums of both are added up.
  refine ⟨Nat.le_trans first.grows second.grows, ?_, fun count => ?_⟩
  · have here := first.owed
    have there := second.owed
    simp only [tally_append]
    omega
  · simp only [tally_append, first.bound, second.bound, ← within_add first.grows second.grows]
    omega

end Accounts

namespace Resolve

variable {session session' after : Session} {s : Stmt} {stmts flat : List Stmt} {out next : Outcome}
  {count left : Nat}

/-- The code of a subroutine is its label, its statements and instructions. -/
theorem function_accounts {func : Function Stmt} {code : List Stmt}
    (subroutine : func.decl.isInline = false)
    (ran : Lowering.function func session = .ok code after) :
    Accounts [.function func] session code after := by
  -- Entering a function mints nothing, so that the count stays.
  simp only [Lowering.function, subroutine, Bool.false_eq_true, if_false, bind_eq_ok,
    pure_eq_ok] at ran
  obtain ⟨_, middle, entered, rfl, rfl⟩ := ran
  let site : Site := ⟨func.ns, func.decl.pos⟩
  have same : middle.labels = session.labels := by
    obtain rfl | ⟨_, -, rfl⟩ := Lowering.enter_run entered <;> rfl
  -- In every sum its label counts what it counted, and the instructions count nothing.
  have counts : ∀ {f : Stmt → Nat} {g : String → Nat}, ByName f g →
      f (.function func) = g func.decl.name →
      tally f (site.label func.decl.name :: func.body ++ if func.decl.noreturn then [] else
        [site.inst (Cpu.returnOp func.decl.isInterrupt) .none]) = tally f [.function func] := by
    intro f g byName named
    have ending : tally f (if func.decl.noreturn then [] else
        [site.inst (Cpu.returnOp func.decl.isInterrupt) .none]) = 0 := by
      split <;> simp [byName.site_inst]
    rw [List.cons_append, byName.site_label, tally_append, ending, tally_subroutine subroutine,
      named, Nat.add_zero]
  refine ⟨Nat.le_of_eq same.symm, ?_, fun count => ?_⟩
  · rw [same, counts owes_byName rfl]
  · rw [same, within_self, Nat.add_zero]
    refine counts (bindsMinted_byName count) ?_
    simp [Stmt.bindsMinted, Stmt.binds?, subroutine]

/-- The labels of a conditional are minted and bound by its code. -/
theorem conditional_accounts {cond : Conditional Stmt} {code : List Stmt} (formed : cond.WellFormed)
    (ran : Lowering.conditional cond session = .ok code after) :
    Accounts [.conditional cond] session code after := by
  -- The labels that are minted are those that the conditional owes.
  obtain ⟨_, _, names, ran', lowered, mints⟩ := lowering_run formed session
  cases ran.symm.trans ran'
  refine ⟨mints.counted ▸ Nat.le_add_right _ _, ?_, fun count => ?_⟩
  · rw [mints.counted, lowered.length_eq, owes_byName.lowered lowered, tally_conditional formed,
      total_map_eq_zero fun _ _ => rfl, Nat.zero_add, Stmt.owes, Nat.add_assoc]
  · rw [(bindsMinted_byName count).lowered lowered, mints.total_eq, tally_conditional formed,
      Stmt.bindsMinted, Stmt.binds?, if_neg nofun, Nat.zero_add, Nat.add_comm]

/-- A turn that expands no call keeps the account. -/
theorem Turn.accounts (turn : Turn session s out after) (nested : s.WellNested)
    (plain : ∀ func, ¬ session.Expands s func) : Accounts [s] session out.stmts after := by
  -- By the turn; only lowering has to do with labels.
  cases turn with
  | dropped passing =>
    cases passing with
    | scopeBegin | scopeEnd | typeDecl =>
      refine .idle (by simp [Stmt.owes]) fun _ => ?_
      simp [Stmt.bindsMinted, Stmt.binds?, Stmt.labelName?]
    | inline isInline =>
      -- What it holds is not among the parts.
      refine .idle ?_ fun _ => ?_ <;> rw [tally, tally, partsAll_cons, Stmt.parts_inline isInline]
      · simp [Stmt.owes]
      · simp [Stmt.bindsMinted, Stmt.binds?, isInline]
  | kept refines =>
    refine .idle (by simp [Stmt.owes]) fun _ => ?_
    cases refines <;> simp [Stmt.bindsMinted, Stmt.binds?, Stmt.labelName?]
  | waits => exact .idle rfl fun _ => rfl
  | called | returned =>
    -- Neither a call nor the instruction in its place is a label.
    refine .idle (by simp [Outcome.waiting, Stmt.owes]) fun _ => ?_
    simp [Outcome.waiting, Stmt.bindsMinted, Stmt.binds?, Stmt.labelName?]
  | @expanded c owner func args found isInline fresh =>
    exact (plain func ⟨c, owner, rfl, found, isInline⟩).elim
  | subroutine subroutine ran => exact function_accounts subroutine ran
  | conditional ran =>
    cases nested with
    | conditional finished => exact conditional_accounts finished.formed ran

/-- Code has no calls but those in the statements that are woven into it. -/
theorem call_of_woven {governed code : List Stmt} {c : Call} (woven : Woven governed code)
    (inside : .item (.call c) ∈ partsAll code) : .item (.call c) ∈ partsAll governed := by
  -- By induction on how the code is woven.
  induction woven with
  | nil => exact inside
  | generated made _ ih =>
    refine ih ?_
    cases made <;> simpa using inside
  | governed s _ ih =>
    rw [partsAll_cons, List.mem_append] at inside ⊢
    exact inside.imp_right ih

/-- A turn that expands no call makes none. -/
theorem Turn.calls (turn : Turn session s out after) (nested : s.WellNested)
    (plain : ∀ func, ¬ session.Expands s func) {c : Call}
    (inside : .item (.call c) ∈ partsAll out.stmts) : .item (.call c) ∈ parts s := by
  -- By the turn; what is emitted has the calls of what was there.
  cases turn with
  | dropped => simp at inside
  | kept refines => cases refines <;> simp at inside
  | waits => simpa [Outcome.waiting] using inside
  | called | returned => simp [Outcome.waiting] at inside
  | @expanded c owner func args found isInline fresh =>
    exact (plain func ⟨c, owner, rfl, found, isInline⟩).elim
  | subroutine subroutine ran =>
    rw [Stmt.parts_subroutine subroutine]
    exact List.mem_cons_of_mem _ (call_of_woven (Lowering.function_emits subroutine ran).1 inside)
  | conditional ran =>
    cases nested with
    | conditional finished =>
      rw [Stmt.parts_conditional finished.formed]
      exact List.mem_cons_of_mem _ (call_of_woven (Lowering.conditional_emits ran).2.1 inside)

end Resolve

/-! ### Calls that are expanded -/

namespace ScopeTable

variable {table later : ScopeTable}

/-- Symbols stand under their own names, which is where defining puts them. -/
def Named (table : ScopeTable) : Prop :=
  ∀ ns name symbol, Entries.get? (ns, name) table.symbols = some symbol → symbol.name = name

/-- Defining keeps symbols under their names. -/
theorem Named.define (named : table.Named) (symbol : Symbol) (owner : Namespace) :
    (table.define symbol owner).Named := by
  -- The symbol that is found is the one defined or was there.
  intro ns name found here
  rw [get?_define] at here
  split at here
  · rename_i same
    cases here
    exact congrArg Prod.snd same
  · exact named ns name found here

/-- What a name leads to now is like what it led to earlier, if the scopes had the name before, and
what stood under it was like what stands there now. -/
theorem lookup?_earlier {like : Symbol → Prop} {name : String} {ns owner : Namespace}
    {symbol : Symbol} (had : ∀ scope, Entries.get? (scope, name) later.symbols = none →
      Entries.get? (scope, name) table.symbols = none)
    (was : ∀ scope symbol, Entries.get? (scope, name) later.symbols = some symbol → like symbol →
      ∃ old, Entries.get? (scope, name) table.symbols = some old ∧ like old)
    (found : later.lookup? name ns = some (owner, symbol)) (holds : like symbol) :
    ∃ old, table.lookup? name ns = some (owner, old) ∧ like old := by
  -- Scope by scope from the inside, for the same scope is the first one that has the name.
  unfold lookup? at found ⊢
  generalize ns.ancestors = scopes at found ⊢
  induction scopes with
  | nil => cases found
  | cons first outer ih =>
    rw [List.findSome?_cons] at found ⊢
    cases here : Entries.get? (first, name) later.symbols with
    | none =>
      rw [here] at found
      rw [had first here]
      exact ih found
    | some _ =>
      rw [here] at found
      cases found
      obtain ⟨old, before, holds⟩ := was owner symbol here holds
      exact ⟨old, by rw [before]; rfl, holds⟩

end ScopeTable

namespace Session

variable {session later base : Session} {s : Stmt} {func : FunctionSymbol}

/-- If an inline function is defined only in place of one, every call that leads to one led to one
before. -/
theorem Expands.of_define {symbol : Symbol} {ns : Namespace}
    (scopes : later.scopes = session.scopes.define symbol ns)
    (fits : ∀ func, symbol = .function func → func.decl.isInline = true →
      ∃ old, Entries.get? (ns, symbol.name) session.scopes.symbols = some (.function old) ∧
        old.decl.isInline = true)
    (expands : later.Expands s func) : ∃ old, session.Expands s old := by
  -- The inline function that is found is the one defined or was there.
  obtain ⟨c, owner, rfl, found, isInline⟩ := expands
  -- A scope without the name had none before, for definitions are not taken back.
  have had : ∀ scope, Entries.get? (scope, c.name) later.scopes.symbols = none →
      Entries.get? (scope, c.name) session.scopes.symbols = none := by
    intro scope missing
    rw [scopes, ScopeTable.get?_define] at missing
    split at missing
    · cases missing
    · exact missing
  -- A scope with an inline function of that name had one before.
  have was : ∀ scope symbol, Entries.get? (scope, c.name) later.scopes.symbols = some symbol →
      (∃ func, symbol = .function func ∧ func.decl.isInline = true) →
      ∃ old, Entries.get? (scope, c.name) session.scopes.symbols = some old ∧
        ∃ func, old = .function func ∧ func.decl.isInline = true := by
    rintro scope _ here ⟨func, rfl, isInline⟩
    rw [scopes, ScopeTable.get?_define] at here
    split at here
    · rename_i same
      obtain ⟨rfl, named⟩ := Prod.mk.inj same
      obtain ⟨old, before, isInline⟩ := fits func (Option.some.inj here) isInline
      exact ⟨_, named ▸ before, old, rfl, isInline⟩
    · exact ⟨_, here, func, rfl, isInline⟩
  obtain ⟨_, before, old, rfl, isInline⟩ :=
    ScopeTable.lookup?_earlier had was found ⟨func, rfl, isInline⟩
  exact ⟨old, c, owner, rfl, before, isInline⟩

/-- A session in which symbols stand under their names, and no other calls lead to inline functions
than in an earlier one. -/
structure Unexpanding (base later : Session) : Prop where
  /-- Symbols stand under their names. -/
  named : later.scopes.Named
  /-- A call that leads to an inline function led to one before. -/
  before : ∀ s func, later.Expands s func → ∃ old, base.Expands s old

namespace Unexpanding

/-- At the same time the same calls lead to inline functions. -/
theorem refl (named : session.scopes.Named) : session.Unexpanding session :=
  ⟨named, fun _ func expands => ⟨func, expands⟩⟩

/-- A time later than a later one. -/
theorem trans {middle : Session} (early : base.Unexpanding middle)
    (late : middle.Unexpanding later) : base.Unexpanding later := by
  -- A call that expands later expanded at the time in between, and so before.
  refine ⟨late.named, fun s func expands => ?_⟩
  obtain ⟨between, expands⟩ := late.before s func expands
  exact early.before s between expands

end Unexpanding

/-- Resolving leads no call to an inline function. -/
theorem unexpanding_invariant (base : Session) : Invariant base.Unexpanding := by
  -- A round defines labels, and functions in place of themselves.
  constructor
  · intro session pos unexpanding
    refine ⟨unexpanding.named.define _ _, fun s func expands => ?_⟩
    -- A label is no function.
    have scopes : (session.mint pos).2.scopes =
        session.scopes.define (.label ⟨labelName session.labels, pos⟩) .global := rfl
    obtain ⟨old, before⟩ := expands.of_define scopes nofun
    exact unexpanding.before s old before
  · intro session after name unexpanding ran
    obtain rfl | ⟨entered, here, rfl⟩ := Lowering.enter_run ran
    · exact unexpanding
    · refine ⟨unexpanding.named.define _ _, fun s func expands => ?_⟩
      -- The function stands where it is defined once more, under its name.
      have named : entered.decl.name = name := unexpanding.named _ _ _ here
      have fits : ∀ func, Symbol.function { entered with entry := some name } = .function func →
          func.decl.isInline = true → ∃ old,
            Entries.get? (.global, entered.decl.name) session.scopes.symbols = some (.function old) ∧
              old.decl.isInline = true := by
        rintro _ ⟨⟩ isInline
        exact ⟨entered, named ▸ here, isInline⟩
      obtain ⟨old, before⟩ := expands.of_define rfl fits
      exact unexpanding.before s old before

end Session

/-! ### The account of all rounds -/

namespace Resolve

variable {session session' after : Session} {s : Stmt} {stmts flat : List Stmt} {out next : Outcome}
  {count left : Nat}

/-- Well-formed trees in which no call leads to an inline function. -/
structure Plain (session : Session) (stmts : List Stmt) : Prop where
  /-- The trees are well formed. -/
  nested : ∀ s ∈ stmts, s.WellNested
  /-- No call in them leads to an inline function. -/
  calls : ∀ s ∈ partsAll stmts, ∀ func, ¬ session.Expands s func

/-- What is plain stays plain while no call comes to lead to an inline function. -/
theorem Plain.onward (plain : Plain session stmts) (unexpanding : session.Unexpanding after) :
    Plain after stmts := by
  -- The calls that would expand now did so before.
  refine ⟨plain.nested, fun s inside func expands => ?_⟩
  obtain ⟨old, before⟩ := unexpanding.before s func expands
  exact plain.calls s inside old before

/-- Plain trees one behind the other. -/
theorem plain_append {first second : List Stmt} :
    Plain session (first ++ second) ↔ Plain session first ∧ Plain session second := by
  -- Both conditions are about each tree.
  constructor
  · rintro ⟨nested, calls⟩
    rw [List.forall_mem_append] at nested
    rw [partsAll_append, List.forall_mem_append] at calls
    exact ⟨⟨nested.1, calls.1⟩, ⟨nested.2, calls.2⟩⟩
  · rintro ⟨early, late⟩
    refine ⟨List.forall_mem_append.2 ⟨early.nested, late.nested⟩, ?_⟩
    rw [partsAll_append]
    exact List.forall_mem_append.2 ⟨early.calls, late.calls⟩

/-- A turn of a plain tree keeps the account, and leaves plain trees. -/
theorem Turn.keeps_account (turn : Turn session s out after) (plain : Plain session [s]) :
    Accounts [s] session out.stmts after ∧ Plain session out.stmts := by
  -- As nothing is expanded, the parts of what is left are parts of the tree.
  have nested := plain.nested s (List.mem_cons_self ..)
  have parts : ∀ x ∈ parts s, ∀ func, ¬ session.Expands x func := by simpa using plain.calls
  have unexpanded : ∀ func, ¬ session.Expands s func := parts s s.mem_parts
  refine ⟨turn.accounts nested unexpanded,
    turn.wellNested_of nested fun func expands => (unexpanded func expands).elim, ?_⟩
  rintro x inside func ⟨c, owner, rfl, found⟩
  exact parts _ (turn.calls nested unexpanded inside) func ⟨c, owner, rfl, found⟩

/-- A round over plain trees keeps the account, and leaves plain trees. -/
theorem round_keeps_account (ran : round stmts session = .ok next after)
    (plain : Plain session stmts) (named : session.scopes.Named) :
    Accounts stmts session next.stmts after ∧ Plain after next.stmts ∧
      session.Unexpanding after := by
  -- Statement by statement, each in the session that those before it leave.
  induction stmts generalizing session next with
  | nil =>
    rw [round, pure_eq_ok] at ran
    obtain ⟨rfl, rfl⟩ := ran
    exact ⟨.idle rfl fun _ => rfl, plain, .refl named⟩
  | cons first others ih =>
    simp only [round, bind_eq_ok, pure_eq_ok] at ran
    obtain ⟨here, middle, stepped, rest, _, ranRest, rfl, rfl⟩ := ran
    have split : Plain session ([first] ++ others) := plain
    obtain ⟨plainFirst, plainOthers⟩ := plain_append.1 split
    obtain ⟨account, plainHere⟩ := (stmt_turn stepped).keeps_account plainFirst
    have early : session.Unexpanding middle :=
      (stmt_guarded (Session.unexpanding_invariant session) first).kept (.refl named) stepped
    obtain ⟨accountRest, plainRest, late⟩ := ih ranRest (plainOthers.onward early) early.named
    exact ⟨account.append accountRest, plain_append.2
      ⟨(plainHere.onward early).onward late, plainRest⟩, early.trans late⟩

/-- So do all rounds together. -/
theorem roundsFrom_accounts (ran : roundsFrom count left stmts session = .ok flat session')
    (plain : Plain session stmts) (named : session.scopes.Named) :
    Accounts stmts session flat session' := by
  -- By induction on the rounds, each of which keeps the account.
  induction left generalizing count stmts session with
  | zero => simp [roundsFrom] at ran
  | succ left ih =>
    obtain ⟨next, middle, first, rest⟩ := roundsFrom_succ ran
    obtain ⟨account, plainNext, unexpanding⟩ := round_keeps_account first plain named
    obtain ⟨-, rfl, rfl, -⟩ | ⟨ran, -⟩ := rest
    · exact account
    · exact account.trans (ih ran plainNext unexpanding.named)

end Resolve

/-- Flat statements owe nothing. -/
theorem tally_owes_flat {flat : List Stmt} (items : ∀ s ∈ flat, ∃ item, s = .item item) :
    tally Stmt.owes flat = 0 := by
  -- By induction on the statements.
  induction flat with
  | nil => exact tally_nil
  | cons first others ih =>
    obtain ⟨⟨item, rfl⟩, rest⟩ := List.forall_mem_cons.1 items
    rw [tally_item, ih rest]
    rfl

/-- Flat statements bind what their labels do. -/
theorem tally_bindsMinted_flat {flat : List Stmt} (items : ∀ s ∈ flat, ∃ item, s = .item item)
    (count : Nat) :
    tally (Stmt.bindsMinted count) flat = (labelNames flat).count (Session.labelName count) := by
  -- By induction on the statements, each of which has one label or none.
  induction flat with
  | nil => exact tally_nil
  | cons first others ih =>
    obtain ⟨⟨item, rfl⟩, rest⟩ := List.forall_mem_cons.1 items
    rw [tally_item, ih rest, labelNames_cons, List.count_append, Stmt.bindsMinted, Stmt.binds?]
    cases Stmt.labelName? (.item item) <;> simp [List.count_singleton]

/-- Take trees that nesting makes, in which no call leads to an inline function and no label or
subroutine has a name of the minted kind, and resolve them in any session, in which symbols stand
under their names as they always do. When that succeeds, the number of labels has grown by what the
conditionals of the trees owe, at any depth but for those in inline functions; and each name that was
minted is bound by exactly one label of the result, which binds no other name of that kind. -/
theorem minted_labels_bound_once {stmts trees flat : List Stmt}
    {start made session session' : Session} (items : ∀ s ∈ stmts, ∃ item, s = .item item)
    (nests : nest stmts start = .ok trees made) (named : session.scopes.Named)
    (plain : ∀ s ∈ Stmt.partsAll trees, ∀ func, ¬ session.Expands s func)
    (unreserved : ∀ s ∈ Stmt.partsAll trees, ∀ count, s.binds? ≠ some (Session.labelName count))
    (ran : resolve trees session = .ok flat session') :
    session'.labels = session.labels + total ((Stmt.partsAll trees).map Stmt.owes) ∧
      ∀ count, (labelNames flat).count (Session.labelName count) =
        if session.labels ≤ count ∧ count < session'.labels then 1 else 0 := by
  -- The account of all rounds is read off at both ends.
  have account := Resolve.roundsFrom_accounts ran ⟨nest_wellNested items nests, plain⟩ named
  -- At the end there are no conditionals, and at the beginning there are no minted names.
  have flatItems : ∀ s ∈ flat, ∃ item, s = .item item := by
    intro s inside
    cases (Resolve.roundsFrom_stay ran s inside).encodable <;> exact ⟨_, rfl⟩
  have none : ∀ count, tally (Stmt.bindsMinted count) trees = 0 := fun count =>
    total_map_eq_zero fun s inside => if_neg (unreserved s inside count)
  refine ⟨?_, fun count => ?_⟩
  · have owed := account.owed
    rwa [tally_owes_flat flatItems, Nat.add_zero] at owed
  · rw [← tally_bindsMinted_flat flatItems, account.bound, none, Nat.zero_add, within]

/-- A function with a loop in a branch, a far test and a switch, which calls another one; and an inline
function with a loop of its own, which is not called. -/
def nestedControl : List Stmt :=
  let instruction (op : Op) : Item := .instruction (.unresolved op .none .global default)
  let clause (kind : ClauseKind) (body : List Item) : List Item :=
    .clause ⟨kind, default⟩ :: .scopeBegin default :: body ++ [.scopeEnd default]
  let function (name : String) (kind : FunctionKind) (body : List Item) : List Item :=
    .functionDecl ⟨name, kind, false, [], default⟩ :: .scopeBegin default :: body ++
      [.scopeEnd default]
  let loop := clause (.whileTest ⟨.far, .is, .carry⟩) [instruction .inx]
  let select := clause (.switchOn .a)
    (clause (.caseOf (.number 1)) [instruction .iny] ++ clause .byDefault [instruction .dey])
  let call : Item := .call ⟨"other", [], .global, [], default⟩
  (function "unused" .inline (clause .forever []) ++ function "other" .subroutine [] ++
    function "main" .subroutine
      (clause (.ifTest ⟨.near, .is, .zero⟩) loop ++ clause .otherwise (call :: select))).map .item

/-- Whether a statement is a call that leads to an inline function. -/
def Session.expands (session : Session) : Stmt → Bool
  | .item (.call c) =>
    match session.scopes.lookup? c.name c.ns with
    | some (_, .function func) => func.decl.isInline
    | _ => false
  | _ => false

/-- A call that leads to an inline function is found to do so. -/
theorem Session.Expands.expands_eq {session : Session} {s : Stmt} {func : FunctionSymbol}
    (expands : session.Expands s func) : session.expands s = true := by
  -- The function that is found is inline.
  obtain ⟨c, owner, rfl, found, isInline⟩ := expands
  simp only [Session.expands, found, isInline]

/-- Two labels are minted for the branch, three for the loop in it, and two for the switch. -/
theorem nestedControl_labels :
    ∃ trees made flat after, nest nestedControl { cpu := .nmos } = .ok trees made ∧
      resolve trees made = .ok flat after ∧ after.labels = 7 ∧
      ∀ count < 7, (labelNames flat).count (Session.labelName count) = 1 := by
  -- The names that are bound start with another character than those of minted labels.
  have evaluated : succeedsWith (fun trees made =>
        made.labels == 0 && total ((Stmt.partsAll trees).map Stmt.owes) == 7 &&
        (Stmt.partsAll trees).all (fun s => !made.expands s &&
          s.binds?.all fun name => name.toList.head? != some '_') &&
        succeedsWith (fun _ _ => true) (resolve trees made))
      (nest nestedControl { cpu := .nmos }) = true := by
    decide +kernel
  obtain ⟨trees, made, nests, passed⟩ := exists_of_succeedsWith evaluated
  simp only [Bool.and_eq_true, beq_iff_eq, List.all_eq_true] at passed
  obtain ⟨⟨⟨fresh, owed⟩, each⟩, resolves⟩ := passed
  obtain ⟨flat, after, ran, -⟩ := exists_of_succeedsWith resolves
  -- The program is flat, as it is scanned.
  have items : ∀ s ∈ nestedControl, ∃ item, s = .item item := by
    intro s inside
    obtain ⟨item, -, rfl⟩ := List.mem_map.1 inside
    exact ⟨item, rfl⟩
  -- The theorem is about names that are those of their symbols.
  have named : made.scopes.Named := fun _ _ _ => (nest_tidy nests ScopeTable.tidy_empty).named
  obtain ⟨counted, bound⟩ := minted_labels_bound_once items nests named
    (fun s inside func expands => by simpa [expands.expands_eq] using (each s inside).1)
    (fun s inside count same => by
      simpa [same, Session.toList_labelName] using (each s inside).2) ran
  rw [fresh, owed] at counted
  refine ⟨trees, made, flat, after, nests, ran, counted, fun count less => ?_⟩
  rw [bound, if_pos (by omega)]

end CrossAsm
