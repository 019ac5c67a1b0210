import CrossAsm.Proofs.Nesting.Written
import CrossAsm.Proofs.Steps

/-! Reading statement by statement: what each flat statement does to the containers that are being
filled and to the scope table. -/

namespace CrossAsm

namespace Conditional

variable {α : Type} (cond : Conditional α)

/-- Changing the block being read twice. -/
theorem modifyCurrent_modifyCurrent (f g : Block α → Block α) :
    (cond.modifyCurrent f).modifyCurrent g = cond.modifyCurrent (g ∘ f) := by
  -- The block being read stays the last one when it is changed.
  unfold modifyCurrent
  cases last : cond.others.getLast? with
  | none => simp [last]
  | some block => simp

/-- Changing nothing about the block being read. -/
theorem modifyCurrent_id : cond.modifyCurrent id = cond := by
  -- Taking the last block off and putting it back gives the same blocks.
  unfold modifyCurrent
  cases last : cond.others.getLast? with
  | none => rfl
  | some block =>
    obtain ⟨front, whole⟩ := List.getLast?_eq_some_iff.1 last
    have same : cond.others.dropLast ++ [block] = cond.others := by
      simp [whole]
    simp [same]

@[simp]
theorem modifyCurrent_form (f : Block α → Block α) : (cond.modifyCurrent f).form = cond.form := by
  -- The current block is the first one or the last of the others.
  unfold modifyCurrent
  split <;> rfl

@[simp]
theorem modifyCurrent_depth (f : Block α → Block α) :
    (cond.modifyCurrent f).depth = cond.depth := by
  -- The current block is the first one or the last of the others.
  unfold modifyCurrent
  split <;> rfl

@[simp]
theorem modifyCurrent_isSwitch (f : Block α → Block α) :
    (cond.modifyCurrent f).isSwitch = cond.isSwitch := by
  simp [isSwitch]

/-- How many blocks are open is no part of the block being read. -/
theorem modifyCurrent_withDepth (f : Block α → Block α) (deep depth : Nat) :
    { ({ cond with depth := deep }.modifyCurrent f) with depth } =
      ({ cond with depth }.modifyCurrent f : Conditional α) := by
  -- Which block is the last does not depend on the depth.
  unfold modifyCurrent
  simp only
  split <;> rfl

end Conditional

/-! ### Containers -/

namespace Frame

/-- A container with more statements in the block being read. -/
def add (stmts : List Stmt) : Frame → Frame
  | .function func depth => .function { func with body := func.body ++ stmts } depth
  | .conditional cond oneLine =>
    .conditional (cond.modifyCurrent fun block => { block with body := block.body ++ stmts })
      oneLine

/-- A container whose block is open for statements: not that of a switch. -/
def Accepts : Frame → Prop
  | .function _ depth => 1 ≤ depth
  | .conditional cond _ => cond.isSwitch = false ∧ 1 ≤ cond.depth

/-- Whether the block of a container closes with its only statement. -/
def oneLine : Frame → Bool
  | .function .. => false
  | .conditional _ oneLine => oneLine

/-- A container that waits for no mark any more. -/
def rested : Frame → Frame
  | .function func depth => .function func depth
  | .conditional cond _ => .conditional cond false

/-- The mark that a container waits for when a conditional in it is finished. -/
def marks (frame : Frame) (pos : Pos) : List Stmt :=
  if frame.oneLine then [.item (.scopeEnd pos)] else []

/-- A container with one more block in its block. -/
def deepened : Frame → Frame
  | .function func depth => .function func (depth + 1)
  | .conditional cond oneLine => .conditional { cond with depth := cond.depth + 1 } oneLine

variable (frame : Frame)

@[simp]
theorem add_nil : frame.add [] = frame := by
  -- Adding nothing leaves the block being read as it is.
  cases frame with
  | function => simp [add]
  | conditional cond oneLine =>
    simp only [add, List.append_nil]
    rw [show (fun block : Block Stmt => { block with body := block.body }) = id from rfl,
      cond.modifyCurrent_id]

@[simp]
theorem add_add (first second : List Stmt) :
    (frame.add first).add second = frame.add (first ++ second) := by
  -- A function is added to at its end, a conditional in its last block.
  cases frame with
  | function => simp [add]
  | conditional =>
    -- Both additions go to the same block.
    simp only [add, Conditional.modifyCurrent_modifyCurrent]
    congr 2
    funext block
    simp

@[simp]
theorem accepts_add (stmts : List Stmt) : (frame.add stmts).Accepts ↔ frame.Accepts := by
  cases frame <;> simp [add, Accepts]

@[simp]
theorem oneLine_add (stmts : List Stmt) : (frame.add stmts).oneLine = frame.oneLine := by
  cases frame <;> rfl

@[simp]
theorem decl?_add (stmts : List Stmt) : (frame.add stmts).decl? = frame.decl? := by
  cases frame <;> rfl

@[simp]
theorem accepts_rested : frame.rested.Accepts ↔ frame.Accepts := by
  cases frame <;> rfl

@[simp]
theorem oneLine_rested : frame.rested.oneLine = false := by
  cases frame <;> rfl

@[simp]
theorem decl?_rested : frame.rested.decl? = frame.decl? := by
  cases frame <;> rfl

/-- A container that waits for no mark is at rest. -/
theorem rested_of_oneLine (free : frame.oneLine = false) : frame.rested = frame := by
  -- Only a conditional waits for a mark.
  cases frame with
  | function => rfl
  | conditional cond oneLine =>
    cases free
    rfl

/-- A container that waits for no mark puts none back. -/
theorem marks_of_oneLine (free : frame.oneLine = false) (pos : Pos) : frame.marks pos = [] := by
  -- Marks are put back for those that wait.
  simp [marks, free]

@[simp]
theorem decl?_deepened : frame.deepened.decl? = frame.decl? := by
  cases frame <;> rfl

@[simp]
theorem oneLine_deepened : frame.deepened.oneLine = frame.oneLine := by
  cases frame <;> rfl

/-- A deepened container is open. -/
theorem accepts_deepened (accepts : frame.Accepts) : frame.deepened.Accepts := by
  -- One more block is open than before.
  cases frame with
  | function => exact Nat.le_add_left 1 _
  | conditional cond oneLine => exact ⟨accepts.1, Nat.le_add_left 1 _⟩

end Frame

/-! ### Steps -/

namespace Nesting

/-- The state with a scope table, statements to be read and containers. -/
def reading (s : Nesting) (table : ScopeTable) (queue : List Stmt) (frames : List Frame) : Nesting :=
  { s with session := { s.session with scopes := table }, queue, frames }

variable {s : Nesting} {table : ScopeTable} {queue rest : List Stmt} {outer : List Frame}
  {frame : Frame} {stmt : Stmt}

/-- Reading goes on behind a statement that is read. -/
theorem run_reading {s' : Nesting} (passed : step stmt (s.reading table rest outer) = .ok () s') :
    run (s.reading table (stmt :: rest) outer) = run s' := by
  -- The queue starts with the statement, so only the reading branch is left.
  rw [run]
  split
  · rename_i empty
    cases empty
  · rename_i other others queued
    cases queued
    split
    · rename_i after here
      cases passed.symm.trans here
      rfl
    · rename_i failed
      cases passed.symm.trans failed

/-- Looking at the state changes nothing. -/
theorem get_bind {α : Type} (f : Nesting → NestingStep α) (s : Nesting) :
    ((get : NestingStep Nesting) >>= f) s = f s s :=
  rfl

/-- A statement is added to the container that is being filled. -/
theorem emit_reading (accepts : frame.Accepts) (stmt : Stmt) :
    emit stmt (s.reading table queue (frame :: outer)) =
      .ok () (s.reading table queue (frame.add [stmt] :: outer)) := by
  -- A function takes every statement, and a conditional every one unless it is a switch.
  cases frame with
  | function => rfl
  | conditional cond oneLine =>
    -- A switch would refuse it.
    have plain : cond.isSwitch = false := accepts.1
    show (if cond.isSwitch then _ else _ : NestingStep Unit) _ = _
    rw [plain]
    rfl

/-- The open scope is left. -/
theorem popScope_reading {ns : Namespace} {name : String}
    (inside : table.current = ns.child name) :
    popScope (s.reading table queue outer) = .ok () (s.reading (table.leave ns) queue outer) := by
  -- The scope that is open has one around it, which is the one that is named.
  have popped : (s.reading table queue outer).session.scopes.pop =
      .ok (table.current, table.leave ns) := by
    -- The name of a scope that was opened ends in its own part.
    have parent : table.current.parent? = some ns := by
      rw [inside, Namespace.parent?, Namespace.child]
      split
      · rename_i empty
        simp at empty
      · simp
    show table.pop = _
    rw [ScopeTable.pop, parent]
    rfl
  rw [popScope, get_bind, popped]
  rfl

/-- A finished conditional is added to its container, which puts back the mark it waits for. -/
theorem finishConditional_reading (accepts : frame.Accepts) (cond : Conditional Stmt) (pos : Pos) :
    finishConditional cond pos (s.reading table queue (frame :: outer)) =
      .ok () (s.reading table (frame.marks pos ++ queue)
        (frame.rested.add [.conditional cond] :: outer)) := by
  -- The mark is put back only by a conditional that waits for one.
  refine bind_eq_ok.2 ⟨(), _, emit_reading accepts _, ?_⟩
  cases frame with
  | function => rfl
  | conditional inner oneLine => cases oneLine <;> rfl

/-- A name may be claimed if it is not that of another kind of entry. -/
theorem claimGlobal_reading {symbol : Symbol}
    (free : ∀ existing, Entries.get? (.global, symbol.name) table.symbols = some existing →
      clashes existing symbol = false) (pos : Pos) :
    claimGlobal symbol pos (s.reading table queue outer) =
      .ok () (s.reading table queue outer) := by
  -- The look-up decides, which is done in the global scope only.
  have looked : (s.reading table queue outer).session.scopes.lookup? symbol.name .global =
      (Entries.get? (.global, symbol.name) table.symbols).map (.global, ·) :=
    table.lookup?_global symbol.name
  rw [claimGlobal, get_bind, looked]
  -- Looked up from the global scope, the name leads to a global symbol or to none.
  cases found : Entries.get? (.global, symbol.name) table.symbols with
  | none => rfl
  | some existing =>
    simp only [Option.map_some, free existing found]
    rfl

/-- A variable is declared in the open scope, which is not the global one. -/
theorem declareVariable_reading (accepts : frame.Accepts) (inner : table.current ≠ .global)
    (var : Variable) :
    declareVariable var (s.reading table queue (frame :: outer)) =
      .ok () (s.reading (table.define (.var { var with ns := table.current }) table.current) queue
        (frame.add [.item (.var { var with ns := table.current })] :: outer)) := by
  -- Only a global variable has to claim its name.
  have claimed : claimIn table.current (.var { var with ns := table.current }) var.pos
      (s.reading table queue (frame :: outer)) =
        .ok () (s.reading table queue (frame :: outer)) := by
    rw [claimIn, if_neg inner]
    rfl
  refine bind_eq_ok.2 ⟨table.current, _, rfl, ?_⟩
  refine bind_eq_ok.2 ⟨(), _, claimed, ?_⟩
  exact bind_eq_ok.2 ⟨(), _, rfl, emit_reading accepts _⟩

/-- Whether statements start with an initializer. -/
def startsFilling : List Stmt → Bool
  | .item (.initializer _) :: _ => true
  | _ => false

/-- A simple statement that is allowed is read. -/
theorem run_simple {decl : FunctionDecl} (accepts : frame.Accepts)
    (inside : (frame :: outer).findSome? Frame.decl? = some decl) (inner : table.current ≠ .global)
    {simple : Simple} (allowed : simple.Allowed decl table) (ends : startsFilling rest = false) :
    run (s.reading table (simple.written ++ rest) (frame :: outer)) =
      run (s.reading (simple.nested decl.isInterrupt table).2 rest
        (frame.add (simple.nested decl.isInterrupt table).1 :: outer)) := by
  -- By cases on the statement, each of which is one step of reading.
  cases simple with
  | instruction line => exact run_reading (emit_reading accepts _)
  | call c => exact run_reading (emit_reading accepts _)
  | label l =>
    -- A label is claimed, defined and added.
    have free : ∀ existing, Entries.get? (.global, (Symbol.label l).name) table.symbols =
        some existing → clashes existing (.label l) = false := allowed
    refine run_reading (bind_eq_ok.2 ⟨(), _, claimGlobal_reading free l.pos, ?_⟩)
    exact bind_eq_ok.2 ⟨(), _, rfl, emit_reading accepts _⟩
  | var v init =>
    cases init with
    | none =>
      refine run_reading ?_
      have alone : addVariable v (s.reading table rest (frame :: outer)) =
          declareVariable v (s.reading table rest (frame :: outer)) := by
        -- Only an initializer would be read along with it.
        rcases rest with _ | ⟨item | func | cond, others⟩
        · rfl
        · cases item <;> first | rfl | cases ends
        · rfl
        · rfl
      exact alone.trans (declareVariable_reading accepts inner v)
    | some init => exact run_reading (declareVariable_reading accepts inner _)
  | ret r =>
    refine run_reading ?_
    -- The innermost function is the one that returns.
    have returns : decl.isInline = false := allowed
    have innermost : (s.reading table rest (frame :: outer)).frames.findSome? Frame.decl? =
        some decl := inside
    show addReturn r (s.reading table rest (frame :: outer)) = _
    rw [addReturn, get_bind, innermost]
    simp only [returns]
    exact emit_reading accepts _

/-! ### Blocks of conditionals -/

/-- A conditional whose last block has just been opened. -/
def opened (cond : Conditional Stmt) : Conditional Stmt :=
  { cond with depth := 1 }.modifyCurrent fun block => { block with isOpen := true }

/-- A conditional whose last block has just been closed. -/
def closed (cond : Conditional Stmt) : Conditional Stmt :=
  { cond with depth := 0 }.modifyCurrent fun block => { block with isOpen := false }

/-- A block is opened in a scope of its own. -/
theorem openBlock_reading {cond : Conditional Stmt} {oneLine child : Bool} {frames : List Frame}
    {after : List Stmt}
    (queued : openQueue (opened cond).current.clause.pos queue = some (after, child)) :
    openBlock cond oneLine outer (s.reading table queue frames) =
      .ok () (s.reading (table.push none) after
        (.conditional (opened cond) (oneLine || child) :: outer)) := by
  -- The scope is opened before the statements are looked at.
  refine bind_eq_ok.2 ⟨(), s.reading (table.push none) queue frames, rfl, ?_⟩
  rw [get_bind]
  unfold opened at queued ⊢
  have here : openQueue
      ({ cond with depth := 1 }.modifyCurrent fun block =>
        { block with isOpen := true }).current.clause.pos
      (s.reading (table.push none) queue frames).queue = some (after, child) := queued
  simp only [here]
  rfl

/-- The end of a block closes it and the scope it stands for. -/
theorem close_reading {cond : Conditional Stmt} {oneLine : Bool} {ns : Namespace} {name : String}
    (single : cond.depth = 1) (inside : table.current = ns.child name) (pos : Pos) :
    step (.item (.scopeEnd pos)) (s.reading table queue (.conditional cond oneLine :: outer)) =
      closeConditional { cond with depth := 0 } oneLine outer pos
        (s.reading (table.leave ns) queue (.conditional cond oneLine :: outer)) := by
  -- The scope is left first, and then the form of the conditional decides.
  show (popScope >>= fun _ => _ : NestingStep Unit) _ = _
  -- One block is open, so leaving it leaves none.
  show EStateM.bind popScope _ _ = _
  rw [EStateM.bind, popScope_reading inside]
  simp only [single]
  rfl

/-- Whether statements start with an `else`. -/
def startsElse : List Stmt → Bool
  | .item (.clause ⟨.otherwise, _⟩) :: _ => true
  | _ => false

section Closing

variable {cond : Conditional Stmt} {oneLine : Bool} {ns : Namespace} {name : String} {pos : Pos}

/-- What happens to a conditional when its block is closed depends on its form and on what follows. -/
theorem closeConditional_eq (cond : Conditional Stmt) (oneLine : Bool) (outer : List Frame)
    (pos : Pos) (s : Nesting) :
    closeConditional { cond with depth := 0 } oneLine outer pos s =
      (match (closed cond).form, s.queue with
      | .ifThen, .item (.clause ⟨.otherwise, _⟩) :: _ =>
        setFrames (.conditional (closed cond) oneLine :: outer)
      | .doWhile, .item (.clause ⟨.whileTest test, _⟩) :: rest => do
        setQueue rest
        setFrames outer
        finishConditional { closed cond with post := some test } pos
      | .doWhile, _ => throw (.doWithoutWhile (closed cond).pos)
      | .case, _ | .default, _ => do
        setFrames outer
        attachCase (closed cond) pos
      | _, _ => do
        setFrames outer
        finishConditional (closed cond) pos : NestingStep Unit) s :=
  rfl

@[simp]
theorem closed_form (cond : Conditional Stmt) : (closed cond).form = cond.form := by
  simp [closed]

/-- A conditional that nothing belongs to any more is finished at the end of its block. -/
theorem run_close (accepts : frame.Accepts) (single : cond.depth = 1)
    (inside : table.current = ns.child name)
    (plain : cond.form ≠ .doWhile ∧ cond.form ≠ .case ∧ cond.form ≠ .default)
    (ends : cond.form = .ifThen → startsElse rest = false) :
    run (s.reading table (.item (.scopeEnd pos) :: rest)
        (.conditional cond oneLine :: frame :: outer)) =
      run (s.reading (table.leave ns) (frame.marks pos ++ rest)
        (frame.rested.add [.conditional (closed cond)] :: outer)) := by
  -- The last block is closed, and the form says that nothing follows.
  refine run_reading ((close_reading single inside pos).trans ?_)
  refine Eq.trans ?_ (finishConditional_reading accepts (closed cond) pos)
  -- Of the ways to go on, the form leaves the last one.
  rw [closeConditional_eq, closed_form]
  suffices same : _ = (setFrames (frame :: outer) >>= fun _ =>
      finishConditional (closed cond) pos : NestingStep Unit) by
    exact congrFun same _
  split
  · -- An `else` would belong to it.
    rename_i form queued
    have none := ends form
    simp only [reading] at queued
    rw [queued] at none
    cases none
  · exact absurd ‹_› plain.1
  · exact absurd ‹_› plain.1
  · exact absurd ‹_› plain.2.1
  · exact absurd ‹_› plain.2.2
  · rfl

/-- The clause behind a `do` block is its test. -/
theorem run_close_do (accepts : frame.Accepts) (single : cond.depth = 1)
    (inside : table.current = ns.child name) (form : cond.form = .doWhile) (test : Test)
    (testPos : Pos) :
    run (s.reading table
        (.item (.scopeEnd pos) :: .item (.clause ⟨.whileTest test, testPos⟩) :: rest)
        (.conditional cond oneLine :: frame :: outer)) =
      run (s.reading (table.leave ns) (frame.marks pos ++ rest)
        (frame.rested.add [.conditional { closed cond with post := some test }] :: outer)) := by
  -- The last block is closed, and the test behind it is taken in.
  refine run_reading ((close_reading single inside pos).trans ?_)
  refine Eq.trans ?_ (finishConditional_reading accepts { closed cond with post := some test } pos)
  rw [closeConditional_eq, closed_form, form]
  rfl

/-- An `else` continues the `if` that is closed before it. -/
theorem run_close_else (single : cond.depth = 1) (inside : table.current = ns.child name)
    (form : cond.form = .ifThen) (elsePos : Pos) {after : List Stmt} {child : Bool}
    (queued : openQueue elsePos rest = some (after, child)) :
    run (s.reading table (.item (.scopeEnd pos) :: .item (.clause ⟨.otherwise, elsePos⟩) :: rest)
        (.conditional cond false :: outer)) =
      run (s.reading ((table.leave ns).push none) after
        (.conditional (opened (addBlock { closed cond with form := .ifElse }
          { clause := ⟨.otherwise, elsePos⟩ })) child :: outer)) := by
  -- The `if` waits in its place, since an `else` follows.
  have waits : step (.item (.scopeEnd pos))
      (s.reading table (.item (.clause ⟨.otherwise, elsePos⟩) :: rest)
        (.conditional cond false :: outer)) =
      .ok () (s.reading (table.leave ns) (.item (.clause ⟨.otherwise, elsePos⟩) :: rest)
        (.conditional (closed cond) false :: outer)) := by
    rw [close_reading single inside pos, closeConditional_eq, closed_form, form]
    rfl
  -- The `else` finds it there and adds its own block.
  have goesOn : step (.item (.clause ⟨.otherwise, elsePos⟩))
      (s.reading (table.leave ns) rest (.conditional (closed cond) false :: outer)) =
      openBlock (addBlock { closed cond with form := .ifElse } { clause := ⟨.otherwise, elsePos⟩ })
        false outer
        (s.reading (table.leave ns) rest (.conditional (closed cond) false :: outer)) := by
    have ready : (closed cond).form = .ifThen ∧ (closed cond).depth = 0 := by
      simp [closed, form]
    show (if (closed cond).form = .ifThen ∧ (closed cond).depth = 0 then _ else _ :
      NestingStep Unit) _ = _
    rw [if_pos ready]
  -- The block that is opened last is that of the `else`.
  have clause : (opened (addBlock { closed cond with form := .ifElse }
      { clause := ⟨.otherwise, elsePos⟩ })).current.clause.pos = elsePos := by
    simp [opened, addBlock, Conditional.modifyCurrent, Conditional.current]
  rw [run_reading waits]
  refine run_reading (goesOn.trans ?_)
  rw [← clause] at queued
  exact openBlock_reading queued

/-- The block of an arm is handed to its switch. -/
theorem run_close_arm {switch : Conditional Stmt} (single : cond.depth = 1)
    (inside : table.current = ns.child name) (form : cond.form = .case ∨ cond.form = .default)
    (one : cond.others = []) :
    run (s.reading table (.item (.scopeEnd pos) :: rest)
        (.conditional cond oneLine :: .conditional switch false :: outer)) =
      run (s.reading (table.leave ns) rest
        (.conditional (addBlock switch (closed cond).first) false :: outer)) := by
  -- An arm has one block, which the switch takes over.
  have attached : attachCase (closed cond) pos
      (s.reading (table.leave ns) rest (.conditional switch false :: outer)) =
      .ok () (s.reading (table.leave ns) rest
        (.conditional (addBlock switch (closed cond).first) false :: outer)) := by
    have none : (closed cond).others = [] := by
      simp [closed, Conditional.modifyCurrent, one]
    unfold attachCase
    simp only [none]
    rfl
  refine run_reading ((close_reading single inside pos).trans ?_)
  rw [closeConditional_eq, closed_form]
  rcases form with form | form
  · rw [form]
    exact attached
  · rw [form]
    exact attached

end Closing

/-- A clause that starts a conditional. -/
def startsConditional (clause : Clause) : Bool :=
  match clause.kind with
  | .otherwise | .caseOf _ | .byDefault => false
  | _ => true

/-- A clause that starts a conditional opens its first block. -/
theorem run_open {clause : Clause} (starts : startsConditional clause) {after : List Stmt}
    {child : Bool} (queued : openQueue clause.pos rest = some (after, child)) :
    run (s.reading table (.item (.clause clause) :: rest) outer) =
      run (s.reading (table.push none) after
        (.conditional (opened (.ofClause clause table.current)) child :: outer)) := by
  -- Any clause but those of an `else` or an arm does the same.
  have opens : step (.item (.clause clause)) (s.reading table rest outer) =
      openBlock (.ofClause clause table.current) false outer (s.reading table rest outer) := by
    obtain ⟨kind, pos⟩ := clause
    cases kind <;> first | rfl | cases starts
  exact run_reading (opens.trans (openBlock_reading queued))

/-- A switch with its form after an arm. -/
def armed (switch : Conditional Stmt) (arm : Arm Tree) : Conditional Stmt :=
  if arm.isDefault then { switch with form := .switchDefault } else switch

/-- The clause of an arm opens its block inside the switch. -/
theorem run_open_arm {switch : Conditional Stmt} {arm : Arm Tree} (selects : switch.isSwitch)
    (single : switch.depth = 1) (fresh : arm.isDefault → switch.form ≠ .switchDefault)
    {after : List Stmt} {child : Bool} (queued : openQueue arm.pos rest = some (after, child)) :
    run (s.reading table (.item (.clause arm.clause) :: rest)
        (.conditional switch false :: outer)) =
      run (s.reading (table.push none) after
        (.conditional (opened (.ofClause arm.clause table.current)) child ::
          .conditional (armed switch arm) false :: outer)) := by
  -- The switch around it is open, and has no default yet if this is one.
  have opens : step (.item (.clause arm.clause))
      (s.reading table rest (.conditional switch false :: outer)) =
      openBlock (.ofClause arm.clause table.current) false
        (.conditional (armed switch arm) false :: outer)
        (s.reading table rest (.conditional switch false :: outer)) := by
    obtain ⟨value, pos, body⟩ := arm
    cases value with
    | some value =>
      show (if switch.isSwitch ∧ switch.depth = 1 then _ else _ : NestingStep Unit) _ = _
      rw [if_pos ⟨selects, single⟩]
      rfl
    | none =>
      show (if switch.isSwitch ∧ switch.depth = 1 then _ else _ : NestingStep Unit) _ = _
      rw [if_pos ⟨selects, single⟩, if_neg (fresh rfl)]
      rfl
  exact run_reading (opens.trans (openBlock_reading queued))

/-! ### Blocks that no clause governs -/

/-- A brace opens a block in a scope of its own. -/
theorem run_deepen (accepts : frame.Accepts) (pos : Pos) :
    run (s.reading table (.item (.scopeBegin pos) :: rest) (frame :: outer)) =
      run (s.reading (table.push none) rest
        (frame.deepened.add [.item (.scopeBegin pos)] :: outer)) := by
  -- The container counts the block, and the scope is opened before the brace is added.
  have deepens : deepen pos (s.reading table rest (frame :: outer)) =
      .ok () (s.reading table rest (frame.deepened :: outer)) := by
    cases frame <;> rfl
  refine run_reading (bind_eq_ok.2 ⟨(), _, deepens, ?_⟩)
  exact bind_eq_ok.2 ⟨(), _, rfl, emit_reading (frame.accepts_deepened accepts) _⟩

/-- The brace at its end closes the block. -/
theorem run_rise (accepts : frame.Accepts) {ns : Namespace} {name : String}
    (inside : table.current = ns.child name) (stmts : List Stmt) (pos : Pos) :
    run (s.reading table (.item (.scopeEnd pos) :: rest) (frame.deepened.add stmts :: outer)) =
      run (s.reading (table.leave ns) rest
        (frame.add (stmts ++ [.item (.scopeEnd pos)]) :: outer)) := by
  -- Closing the brace leaves the scope and one block of the container.
  have popped : popScope (s.reading table rest (frame.deepened.add stmts :: outer)) =
      .ok () (s.reading (table.leave ns) rest (frame.deepened.add stmts :: outer)) :=
    popScope_reading inside
  have closes : step (.item (.scopeEnd pos))
      (s.reading table rest (frame.deepened.add stmts :: outer)) =
      emit (.item (.scopeEnd pos)) (s.reading (table.leave ns) rest (frame.add stmts :: outer)) := by
    cases frame with
    -- At least the block of the function itself stays open.
    | function func depth =>
      have deep : 1 < depth + 1 := Nat.lt_add_of_pos_left accepts
      show (popScope >>= fun _ => if 1 < depth + 1 then _ else _ : NestingStep Unit) _ = _
      rw [if_pos deep]
      show EStateM.bind popScope _ _ = _
      rw [EStateM.bind, popped]
      rfl
    | conditional cond oneLine =>
      -- Counting up and down again leaves the depth of the conditional as it was.
      let grown (block : Block Stmt) : Block Stmt := { block with body := block.body ++ stmts }
      let inner := { cond with depth := cond.depth + 1 }.modifyCurrent grown
      have risen : { inner with depth := inner.depth - 1 } = cond.modifyCurrent grown := by
        have depth : inner.depth - 1 = cond.depth := by simp [inner]
        rw [depth]
        exact cond.modifyCurrent_withDepth grown (cond.depth + 1) cond.depth
      have deep : 0 < ({ inner with depth := inner.depth - 1 } : Conditional Stmt).depth := by
        rw [risen, Conditional.modifyCurrent_depth]
        exact accepts.2
      show (popScope >>= fun _ =>
        if 0 < ({ inner with depth := inner.depth - 1 } : Conditional Stmt).depth then
          setFrames (.conditional { inner with depth := inner.depth - 1 } oneLine :: outer) >>=
            fun _ => emit (.item (.scopeEnd pos))
        else _ : NestingStep Unit) _ = _
      rw [if_pos deep, risen]
      show EStateM.bind popScope _ _ = _
      rw [EStateM.bind, popped]
      rfl
  -- The brace is added to the container.
  have emitted : emit (.item (.scopeEnd pos))
      (s.reading (table.leave ns) rest (frame.add stmts :: outer)) =
      .ok () (s.reading (table.leave ns) rest
        ((frame.add stmts).add [.item (.scopeEnd pos)] :: outer)) :=
    emit_reading ((frame.accepts_add stmts).2 accepts) _
  rw [Frame.add_add] at emitted
  exact run_reading (closes.trans emitted)

end Nesting

end CrossAsm
