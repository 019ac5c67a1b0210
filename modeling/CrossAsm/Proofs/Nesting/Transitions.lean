import Mathlib.Logic.Relation
import CrossAsm.Proofs.Nesting.Reading
import CrossAsm.Proofs.Nesting.Spliceable

/-! What reading a statement can do, said once: a step that succeeds is one of the transitions below,
so that what holds at all times is proved transition by transition. -/

namespace CrossAsm

namespace Frame

/-- How many blocks of a container are open. -/
def depth : Frame → Nat
  | .function _ depth => depth
  | .conditional cond _ => cond.depth

/-- A container of which a number of blocks is open. -/
def withDepth (depth : Nat) : Frame → Frame
  | .function func _ => .function func depth
  | .conditional cond oneLine => .conditional { cond with depth } oneLine

/-- Whether a container takes cases only. -/
def isSwitch : Frame → Bool
  | .function .. => false
  | .conditional cond _ => cond.isSwitch

variable (frame : Frame)

@[simp]
theorem depth_withDepth (depth : Nat) : (frame.withDepth depth).depth = depth := by
  cases frame <;> rfl

@[simp]
theorem isSwitch_withDepth (depth : Nat) : (frame.withDepth depth).isSwitch = frame.isSwitch := by
  cases frame <;> rfl

@[simp]
theorem depth_add (stmts : List Stmt) : (frame.add stmts).depth = frame.depth := by
  cases frame <;> simp [add, depth]

@[simp]
theorem depth_rested : frame.rested.depth = frame.depth := by
  cases frame <;> rfl

end Frame

/-- An item that is only read: the head of a function or of a block, an initializer, or a type. -/
def Item.isRead : Item → Bool
  | .functionDecl _ | .clause _ | .initializer _ | .typeDecl _ => true
  | _ => false

/-- An item that is entered in the scope table where it stands: a variable or a label. -/
def Item.isNoted : Item → Bool
  | .var _ | .label _ => true
  | _ => false

/-- What a table notes of an item that is passed on: variables and labels, each in the scope where it
belongs. -/
inductive ScopeTable.Notes (table : ScopeTable) : Item → ScopeTable → Prop
  | var (var : Variable) : Notes table (.var var) (table.define (.var var) var.ns)
  | label (label : Label) : Notes table (.label label) (table.define (.label label) .global)
  | same {item : Item} (other : item.isNoted = false) : Notes table item table

namespace ScopeTable.Notes

variable {table later : ScopeTable} {item : Item}

/-- The same scope stays open. -/
theorem current (notes : table.Notes item later) : later.current = table.current := by
  -- Noting enters symbols, and neither opens a scope nor leaves one.
  cases notes <;> rfl

/-- No inline function is new. -/
theorem inlines (notes : table.Notes item later) {func : FunctionSymbol}
    (holds : later.HoldsInline func) : table.HoldsInline func := by
  -- What is defined is no function.
  cases notes with
  | var | label => exact holds.of_define.resolve_left nofun
  | same => exact holds

end ScopeTable.Notes

namespace Nesting

variable {s s' : Nesting}

/-- A statement is added to the innermost container, which is no switch, or to what is done. -/
inductive Adds (stmt : Stmt) (s : Nesting) : Nesting → Prop
  | inside {frame : Frame} {outer : List Frame} (frames : s.frames = frame :: outer)
    (takes : frame.isSwitch = false) : Adds stmt s { s with frames := frame.add [stmt] :: outer }
  | outside (frames : s.frames = []) : Adds stmt s { s with output := s.output ++ [stmt] }

/-- What is added leaves the session. -/
theorem Adds.session {stmt : Stmt} (added : Adds stmt s s') : s'.session = s.session := by
  -- Only the containers are changed, or the list outside of them.
  cases added <;> rfl

/-- The mark that the innermost container waits for is put back. -/
def cascaded (s : Nesting) (pos : Pos) : Nesting :=
  match s.frames with
  | [] => s
  | frame :: outer =>
    { s with frames := frame.rested :: outer, queue := frame.marks pos ++ s.queue }

/-- A mark that is put back leaves the session. -/
theorem cascaded_session (s : Nesting) (pos : Pos) : (s.cascaded pos).session = s.session := by
  -- Whether one is put back or not, only the queue is changed.
  unfold cascaded
  split <;> rfl

/-- The conditional whose block a clause opens, whether it waits for a mark, and the containers
around it. -/
inductive Starts (ns : Namespace) (clause : Clause) :
    List Frame → Conditional Stmt → Bool → List Frame → Prop
  | fresh {frames : List Frame} (otherwise : clause.kind ≠ .otherwise)
    (case : ∀ value, clause.kind ≠ .caseOf value) (default : clause.kind ≠ .byDefault) :
    Starts ns clause frames (.ofClause clause ns) false frames
  | otherwise {cond : Conditional Stmt} {oneLine : Bool} {outer : List Frame}
    (kind : clause.kind = .otherwise) (form : cond.form = .ifThen) (depth : cond.depth = 0) :
    Starts ns clause (.conditional cond oneLine :: outer)
      (addBlock { cond with form := .ifElse } { clause }) oneLine outer
  | case {value : Expr} {cond : Conditional Stmt} {oneLine : Bool} {outer : List Frame}
    (kind : clause.kind = .caseOf value) (switch : cond.isSwitch = true) (depth : cond.depth = 1) :
    Starts ns clause (.conditional cond oneLine :: outer) (.ofClause clause ns) false
      (.conditional cond oneLine :: outer)
  | default {cond : Conditional Stmt} {oneLine : Bool} {outer : List Frame}
    (kind : clause.kind = .byDefault) (form : cond.form = .switch) (depth : cond.depth = 1) :
    Starts ns clause (.conditional cond oneLine :: outer) (.ofClause clause ns) false
      (.conditional { cond with form := .switchDefault } oneLine :: outer)

/-- What becomes of a conditional, and of the statements still to be read, when its last block is
closed for good: a `do` takes the test behind it along. -/
inductive Ends (cond : Conditional Stmt) : List Stmt → Conditional Stmt → List Stmt → Prop
  | plain {queue : List Stmt} (loop : cond.form ≠ .doWhile) (case : cond.form ≠ .case)
    (default : cond.form ≠ .default) (alone : cond.form = .ifThen → startsElse queue = false) :
    Ends cond queue (closed cond) queue
  | trailing {test : Test} {pos : Pos} {rest : List Stmt} (loop : cond.form = .doWhile) :
    Ends cond (.item (.clause ⟨.whileTest test, pos⟩) :: rest)
      { closed cond with post := some test } rest

/-- What becomes of a flat item that is passed on, and of the statements behind it: it is told where
it stands, and a variable takes the initializer behind it along. -/
inductive Carries : Item → List Stmt → Item → List Stmt → Prop
  | filled (var : Variable) (init : Initializer) (ns : Namespace) (rest : List Stmt) :
    Carries (.var var) (.item (.initializer init) :: rest)
      (.var { var with init := some init, ns }) rest
  | unfilled (var : Variable) (ns : Namespace) {queue : List Stmt}
    (alone : startsFilling queue = false) : Carries (.var var) queue (.var { var with ns }) queue
  | call (c : Call) (ns : Namespace) (queue : List Stmt) :
    Carries (.call c) queue (.call { c with ns }) queue
  | instruction (line : Instruction) (ns : Namespace) (queue : List Stmt) :
    Carries (.instruction line) queue (.instruction { line with ns }) queue
  | ret (r : Return) (interrupt : Bool) (queue : List Stmt) :
    Carries (.ret r) queue (.ret { r with interrupt }) queue
  | same {item : Item} (other : ∀ var, item ≠ .var var) (queue : List Stmt) :
    Carries item queue item queue

/-- What reading a statement can do, when it is taken off those to be read. -/
inductive Transition (s : Nesting) : Stmt → Nesting → Prop
  | types (decl : TypeDecl) :
    Transition s (.item (.typeDecl decl))
      (s.reading (s.session.scopes.define (.type decl.type) s.session.scopes.current)
        s.queue s.frames)
  | passes {item item' : Item} {table : ScopeTable} {queue : List Stmt} {s' : Nesting}
    (before : item.isRead = false) (after : item'.isRead = false)
    (notes : s.session.scopes.Notes item' table)
    (read : queue = s.queue ∨ ∃ init, s.queue = .item (.initializer init) :: queue)
    (added : Adds (.item item') (s.reading table queue s.frames) s')
    (carried : Carries item s.queue item' queue) : Transition s (.item item) s'
  | tree {stmt : Stmt} {s' : Nesting} (tree : ∀ item, stmt ≠ .item item)
    (added : Adds stmt s s') : Transition s stmt s'
  | function {decl : FunctionDecl} {pos : Pos} {rest : List Stmt} (frames : s.frames = [])
    (bare : s.bare = []) (queue : s.queue = .item (.scopeBegin pos) :: rest) :
    Transition s (.item (.functionDecl decl))
      (s.reading (s.session.scopes.push (some decl.name)) rest
        [.function { decl, ns := s.session.scopes.current.child decl.name } 1])
  | block {clause : Clause} {cond : Conditional Stmt} {oneLine child : Bool} {outer : List Frame}
    {queue : List Stmt} {pos : Pos}
    (starts : Starts s.session.scopes.current clause s.frames cond oneLine outer)
    (follows : openQueue pos s.queue = some (queue, child)) :
    Transition s (.item (.clause clause))
      (s.reading (s.session.scopes.push none) queue
        (.conditional (opened cond) (oneLine || child) :: outer))
  | deepens {pos : Pos} {frame : Frame} {outer : List Frame} (frames : s.frames = frame :: outer)
    (takes : frame.isSwitch = false) :
    Transition s (.item (.scopeBegin pos))
      (s.reading (s.session.scopes.push none) s.queue
        ((frame.withDepth (frame.depth + 1)).add [.item (.scopeBegin pos)] :: outer))
  | opensBare {pos : Pos} (frames : s.frames = []) :
    Transition s (.item (.scopeBegin pos))
      { s.reading (s.session.scopes.push none) s.queue s.frames with
        bare := pos :: s.bare, output := s.output ++ [.item (.scopeBegin pos)] }
  | closesBare {pos begins : Pos} {rest : List Pos} {ns : Namespace} {table : ScopeTable}
    (frames : s.frames = []) (bare : s.bare = begins :: rest)
    (popped : s.session.scopes.pop = .ok (ns, table)) :
    Transition s (.item (.scopeEnd pos))
      { s.reading table s.queue s.frames with
        bare := rest, output := s.output ++ [.item (.scopeEnd pos)] }
  | rises {pos : Pos} {frame : Frame} {outer : List Frame} {ns : Namespace} {table : ScopeTable}
    (frames : s.frames = frame :: outer) (takes : frame.isSwitch = false) (deep : 1 < frame.depth)
    (popped : s.session.scopes.pop = .ok (ns, table)) :
    Transition s (.item (.scopeEnd pos))
      (s.reading table s.queue
        ((frame.withDepth (frame.depth - 1)).add [.item (.scopeEnd pos)] :: outer))
  | endsFunction {pos : Pos} {func : Function Stmt} {depth : Nat} {outer : List Frame}
    {ns : Namespace} {table : ScopeTable} {s' : Nesting}
    (frames : s.frames = .function func depth :: outer) (last : depth ≤ 1)
    (popped : s.session.scopes.pop = .ok (ns, table))
    (added : Adds (.function func)
      (s.reading (table.define (.function {
        decl := func.decl, body := if func.decl.isInline then func.body else [],
        entry := none }) .global) s.queue outer) s') :
    Transition s (.item (.scopeEnd pos)) (s'.cascaded pos)
  | waits {pos : Pos} {cond : Conditional Stmt} {oneLine : Bool} {outer : List Frame}
    {ns : Namespace} {table : ScopeTable} (frames : s.frames = .conditional cond oneLine :: outer)
    (last : cond.depth ≤ 1) (popped : s.session.scopes.pop = .ok (ns, table))
    (form : cond.form = .ifThen) (next : startsElse s.queue = true) :
    Transition s (.item (.scopeEnd pos))
      (s.reading table s.queue (.conditional (closed cond) oneLine :: outer))
  | endsConditional {pos : Pos} {cond cond' : Conditional Stmt} {oneLine : Bool}
    {outer : List Frame} {ns : Namespace} {table : ScopeTable} {queue : List Stmt} {s' : Nesting}
    (frames : s.frames = .conditional cond oneLine :: outer) (last : cond.depth ≤ 1)
    (popped : s.session.scopes.pop = .ok (ns, table)) (ends : Ends cond s.queue cond' queue)
    (added : Adds (.conditional cond') (s.reading table queue outer) s') :
    Transition s (.item (.scopeEnd pos)) (s'.cascaded pos)
  | endsArm {pos : Pos} {cond switch : Conditional Stmt} {oneLine waiting : Bool}
    {outer : List Frame} {ns : Namespace} {table : ScopeTable}
    (frames : s.frames = .conditional cond oneLine :: .conditional switch waiting :: outer)
    (last : cond.depth ≤ 1) (popped : s.session.scopes.pop = .ok (ns, table))
    (form : cond.form = .case ∨ cond.form = .default) (single : cond.others = []) :
    Transition s (.item (.scopeEnd pos))
      ((s.reading table s.queue
        (.conditional (addBlock switch (closed cond).first) waiting :: outer)).cascaded pos)

/-! ### Every step is a transition -/

/-- A statement is put into the innermost container, or behind what is done. -/
theorem emit_leads (stmt : Stmt) : Leads (emit stmt) s (Adds stmt s) := by
  -- By the innermost container, of which only a switch refuses a statement.
  refine .read ?_
  split
  · rename_i func depth rest frames
    exact .modified (.inside frames rfl)
  · rename_i cond oneLine rest frames
    split
    · exact .fail _
    · rename_i takes
      exact .modified (.inside frames (by simpa [Frame.isSwitch] using takes))
  · rename_i frames
    exact .modified (.outside frames)

/-- The mark that the innermost container waits for is put back. -/
theorem cascade_leads (pos : Pos) : Leads (cascade pos) s (· = s.cascaded pos) := by
  -- The container waits for a mark and gets it, or nothing is done on either side.
  refine .read ?_
  split
  · rename_i cond rest frames
    refine .change (.modified ?_)
    simp only [cascaded, frames]
    rfl
  · rename_i idle
    refine .done ?_
    unfold cascaded
    split
    · rfl
    · rename_i frame outer frames
      -- A container that waits for no mark stays as it is.
      have rests : frame.oneLine = false := by
        cases frame with
        | function => rfl
        | conditional cond oneLine =>
          cases oneLine with
          | false => rfl
          | true => exact absurd frames (idle cond outer)
      rw [frame.rested_of_oneLine rests, frame.marks_of_oneLine rests, ← frames]
      rfl

/-- Claiming a name changes nothing. -/
theorem claimGlobal_leads (symbol : Symbol) (pos : Pos) :
    Leads (claimGlobal symbol pos) s (· = s) := by
  -- The name is free, or taken in one way or the other.
  refine .read ?_
  split
  · split
    · exact .fail _
    · exact .done rfl
  · exact .done rfl

/-- Claiming a name changes nothing. -/
theorem claimIn_leads (ns : Namespace) (symbol : Symbol) (pos : Pos) :
    Leads (claimIn ns symbol pos) s (· = s) := by
  -- Only a global name is claimed.
  unfold claimIn
  split
  · exact claimGlobal_leads symbol pos
  · exact .done rfl

/-- A scope is left. -/
theorem popScope_leads :
    Leads popScope s fun s' => ∃ ns table, s.session.scopes.pop = .ok (ns, table) ∧
      s' = s.reading table s.queue s.frames := by
  -- A scope that cannot be left is a failure.
  refine .read ?_
  split
  · rename_i ns table popped
    exact .modified ⟨ns, table, popped, rfl⟩
  · exact .fail _

/-- Checking for open blocks changes nothing, and finds none. -/
theorem checkClosed_leads :
    Leads checkClosed s fun s' => s' = s ∧ s.frames = [] ∧ s.bare = [] := by
  -- The last container and the last bare block are looked for.
  refine .read ?_
  simp only
  split
  · exact .fail _
  · exact .fail _
  · rename_i frames bare
    exact .done ⟨rfl, List.getLast?_eq_none_iff.1 frames, List.getLast?_eq_none_iff.1 bare⟩

/-- A function is opened outside of everything, with a block. -/
theorem openFunction_leads (decl : FunctionDecl) :
    Leads (openFunction decl) s (Transition s (.item (.functionDecl decl))) := by
  -- Something open is a failure, and so is a function without a block.
  refine .read ?_
  split
  · exact .fail _
  · rename_i outside
    simp only [Bool.or_eq_true, Bool.not_eq_true', not_or, Bool.not_eq_false,
      List.isEmpty_iff] at outside
    split
    · rename_i pos rest queue
      exact .change (.change (.modified (.function outside.1 outside.2 queue)))
    · exact .fail _

/-- A block is opened if a statement or a block in braces follows. -/
theorem openBlock_leads (cond : Conditional Stmt) (oneLine : Bool) (outer : List Frame) :
    Leads (openBlock cond oneLine outer) s fun s' => ∃ pos queue child,
      openQueue pos s.queue = some (queue, child) ∧
      s' = s.reading (s.session.scopes.push none) queue
        (.conditional (opened cond) (oneLine || child) :: outer) := by
  -- What follows is a block, or the clause fails.
  refine .change (.read ?_)
  simp only
  split
  · rename_i queue child follows
    exact .change (.modified ⟨_, queue, child, follows, rfl⟩)
  · exact .fail _

/-- A clause opens a block. -/
theorem openClause_leads (clause : Clause) :
    Leads (openClause clause) s (Transition s (.item (.clause clause))) := by
  -- Which conditional it is depends on the clause and on the innermost container.
  have block : ∀ {cond oneLine outer},
      Starts s.session.scopes.current clause s.frames cond oneLine outer →
      Leads (openBlock cond oneLine outer) s (Transition s (.item (.clause clause))) := by
    intro cond oneLine outer starts
    refine (openBlock_leads cond oneLine outer).mono ?_
    rintro s' ⟨pos, queue, child, follows, rfl⟩
    exact .block starts follows
  refine .read ?_
  simp only
  split
  · -- An `else` needs an `if` that waits.
    rename_i kind
    split
    · rename_i cond oneLine outer frames
      split
      · rename_i waits
        exact block (frames ▸ .otherwise kind waits.1 waits.2)
      · exact .fail _
    · exact .fail _
  · -- A case needs a switch with no block open.
    rename_i value kind
    split
    · rename_i cond oneLine outer frames
      split
      · rename_i inside
        refine block ?_
        rw [frames]
        exact .case kind inside.1 inside.2
      · exact .fail _
    · exact .fail _
  · -- So does a default.
    rename_i kind
    split
    · rename_i cond oneLine outer frames
      split
      · rename_i inside
        split
        · exact .fail _
        · -- A switch that has no default yet gets one.
          rename_i first
          have form : cond.form = .switch := by
            simpa [Conditional.isSwitch, first] using inside.1
          exact block (frames ▸ .default kind form inside.2)
      · exact .fail _
    · exact .fail _
  · -- All other clauses start a conditional.
    rename_i otherwise case default
    exact block (.fresh otherwise case default)

/-- A block without a clause is opened. -/
theorem openBare_leads (pos : Pos) :
    Leads (openBare pos) s (Transition s (.item (.scopeBegin pos))) := by
  -- The block is counted before the brace is emitted.
  have deepens : Leads (deepen pos) s fun s' =>
      (∃ frame outer, s.frames = frame :: outer ∧
        s' = { s with frames := frame.withDepth (frame.depth + 1) :: outer }) ∨
      (s.frames = [] ∧ s' = { s with bare := pos :: s.bare }) := by
    refine .read ?_
    split
    · -- By the innermost container, or by there being none.
      rename_i func depth rest frames
      exact .modified (.inl ⟨_, _, frames, rfl⟩)
    · rename_i cond oneLine rest frames
      exact .modified (.inl ⟨_, _, frames, rfl⟩)
    · rename_i frames
      exact .modified (.inr ⟨frames, rfl⟩)
  refine deepens.andThen fun _ middle deepened => .change ?_
  refine (emit_leads _).mono fun s' added => ?_
  -- The mark goes where the block was counted.
  obtain ⟨frame, outer, frames, rfl⟩ | ⟨frames, rfl⟩ := deepened
  · cases added with
    | inside here takes =>
      cases here
      exact .deepens frames (by simpa using takes)
    | outside here => cases here
  · cases added with
    | inside here => cases frames.symm.trans here
    | outside => exact .opensBare frames

/-- A finished function. -/
theorem finishFunction_leads (func : Function Stmt) (pos : Pos) :
    Leads (finishFunction func pos) s fun s' => ∃ middle,
      Adds (.function func) (s.reading (s.session.scopes.define (.function {
        decl := func.decl, body := if func.decl.isInline then func.body else [],
        entry := none }) .global) s.queue s.frames) middle ∧ s' = middle.cascaded pos := by
  -- The name is claimed and defined, the function added, and a mark put back.
  refine (claimGlobal_leads _ _).andThen fun _ claimed same => .change ?_
  subst same
  refine (emit_leads _).andThen fun _ middle added => (cascade_leads pos).mono ?_
  rintro s' rfl
  exact ⟨middle, added, rfl⟩

/-- A finished conditional. -/
theorem finishConditional_leads (cond : Conditional Stmt) (pos : Pos) :
    Leads (finishConditional cond pos) s fun s' => ∃ middle,
      Adds (.conditional cond) s middle ∧ s' = middle.cascaded pos := by
  -- It is emitted, and then the mark is put back.
  refine (emit_leads _).andThen fun _ middle added => (cascade_leads pos).mono ?_
  rintro s' rfl
  exact ⟨middle, added, rfl⟩

/-- The block of a case goes to the conditional around it. -/
theorem attachCase_leads (cond : Conditional Stmt) (pos : Pos) :
    Leads (attachCase cond pos) s fun s' => ∃ switch oneLine rest,
      cond.others = [] ∧ s.frames = .conditional switch oneLine :: rest ∧
      s' = cascaded { s with frames := .conditional (addBlock switch cond.first) oneLine :: rest }
        pos := by
  -- The innermost container has to be a conditional, which takes the first block.
  unfold attachCase
  split
  · exact .fail _
  · rename_i single
    refine .read ?_
    split
    · rename_i switch oneLine rest frames
      refine .change ((cascade_leads pos).mono ?_)
      rintro s' rfl
      exact ⟨switch, oneLine, rest, by simpa using single, frames, rfl⟩
    · exact .fail _

/-- The last block of a conditional is closed, when its scope is left. -/
theorem closeConditional_leads {cond : Conditional Stmt} {oneLine : Bool} {outer : List Frame}
    {ns : Namespace} {table : ScopeTable} (pos : Pos)
    (frames : s.frames = .conditional cond oneLine :: outer) (last : cond.depth ≤ 1)
    (popped : s.session.scopes.pop = .ok (ns, table)) :
    Leads (closeConditional { cond with depth := 0 } oneLine outer pos)
      (s.reading table s.queue s.frames) (Transition s (.item (.scopeEnd pos))) := by
  -- By the form: the conditional waits, goes to its switch, or is finished.
  have finished : ∀ {cond' queue}, Ends cond s.queue cond' queue →
      Leads (finishConditional cond' pos) (s.reading table queue outer)
        (Transition s (.item (.scopeEnd pos))) := by
    intro cond' queue ends
    refine (finishConditional_leads cond' pos).mono ?_
    rintro s' ⟨middle, added, rfl⟩
    exact .endsConditional frames last popped ends added
  have attached : cond.form = .case ∨ cond.form = .default →
      Leads (attachCase (closed cond) pos) (s.reading table s.queue outer)
        (Transition s (.item (.scopeEnd pos))) := by
    intro form
    refine (attachCase_leads (closed cond) pos).mono ?_
    rintro s' ⟨switch, waiting, rest, single, around, rfl⟩
    have here : outer = .conditional switch waiting :: rest := around
    subst here
    -- A conditional with one block has one before it is closed, too.
    have alone : cond.others = [] := by
      unfold closed Conditional.modifyCurrent at single
      split at single
      · exact single
      · simp at single
    exact .endsArm frames last popped form alone
  have same : (closed cond).form = cond.form := closed_form cond
  refine .read ?_
  simp only
  -- An `if` waits if an `else` comes next.
  split
  · rename_i form queue
    refine .modified (.waits frames last popped (same ▸ form) ?_)
    rw [show s.queue = _ from queue]
    rfl
  · -- A `do` takes along the test that comes next, and fails without one.
    rename_i test _ rest form queue
    have ends : Ends cond s.queue { closed cond with post := some test } rest := by
      rw [show s.queue = _ from queue]
      exact .trailing (same ▸ form)
    exact .change (.change (finished ends))
  · exact .fail _
  · -- The block of a case or a default goes to its switch.
    rename_i form
    exact .change (attached (.inl (same ▸ form)))
  · rename_i form
    exact .change (attached (.inr (same ▸ form)))
  · -- Everything else is finished.
    rename_i noLoop noCase noDefault noElse _
    have ends : Ends cond s.queue (closed cond) s.queue := by
      refine .plain (same ▸ noLoop) (same ▸ noCase) (same ▸ noDefault) fun form => ?_
      -- An `if` would have waited for an `else`.
      unfold startsElse
      split
      · rename_i queue
        exact (noElse _ _ (same.trans form) queue).elim
      · rfl
    exact .change (finished ends)

/-- The innermost block is closed. -/
theorem close_leads (pos : Pos) : Leads (close pos) s (Transition s (.item (.scopeEnd pos))) := by
  -- By the innermost container: none, a function, or a conditional.
  refine .read ?_
  split
  · -- Outside of all containers the end closes a bare block.
    rename_i frames
    split
    · exact .fail _
    · rename_i begins rest bare
      refine .change (popScope_leads.andThen fun _ middle left => ?_)
      obtain ⟨ns, table, popped, rfl⟩ := left
      refine (emit_leads _).mono fun s' added => ?_
      cases added with
      | inside here => cases frames.symm.trans here
      | outside => exact .closesBare frames bare popped
  · -- A function goes on if other blocks of it are open, and is finished otherwise.
    rename_i func depth outer frames
    refine popScope_leads.andThen fun _ middle left => ?_
    obtain ⟨ns, table, popped, rfl⟩ := left
    split
    · rename_i deep
      refine .change ((emit_leads _).mono fun s' added => ?_)
      cases added with
      | inside here =>
        cases here
        exact .rises frames rfl deep popped
      | outside here => cases here
    · rename_i shallow
      refine .change ((finishFunction_leads func pos).mono ?_)
      rintro s' ⟨middle, added, rfl⟩
      exact .endsFunction frames (by omega) popped added
  · -- So does a conditional.
    rename_i cond oneLine outer frames
    refine popScope_leads.andThen fun _ middle left => ?_
    obtain ⟨ns, table, popped, rfl⟩ := left
    simp only
    split
    · rename_i deep
      refine .change ((emit_leads _).mono fun s' added => ?_)
      cases added with
      | inside here takes =>
        cases here
        exact .rises frames takes (show 1 < cond.depth by omega) popped
      | outside here => cases here
    · rename_i shallow
      have last : cond.depth - 1 = 0 := by omega
      rw [last]
      exact closeConditional_leads pos frames (by omega) popped

/-- A variable is declared, and its initializer is taken along. -/
theorem addVariable_leads (var : Variable) :
    Leads (addVariable var) s (Transition s (.item (.var var))) := by
  -- The variable is declared in the same way with an initializer and without.
  have declared : ∀ {var' : Variable} {queue : List Stmt},
      (queue = s.queue ∨ ∃ init, s.queue = .item (.initializer init) :: queue) →
      (∀ ns, Carries (.var var) s.queue (.var { var' with ns }) queue) →
      Leads (declareVariable var') (s.reading s.session.scopes queue s.frames)
        (Transition s (.item (.var var))) := by
    intro var' queue read carried
    refine .read ((claimIn_leads _ _ _).andThen fun _ claimed same => .change ?_)
    subst same
    refine (emit_leads _).mono fun s' added => ?_
    exact .passes rfl rfl (.var _) read added (carried _)
  refine .read ?_
  split
  · -- With an initializer behind it, both are read.
    rename_i init rest queue
    refine .change (declared (.inr ⟨init, queue⟩) fun ns => ?_)
    rw [queue]
    exact .filled var init ns rest
  · -- Without one, the variable is read alone.
    rename_i alone
    refine declared (.inl rfl) fun ns => .unfilled var ns ?_
    -- Nothing to be taken along is next.
    unfold startsFilling
    split
    · rename_i init rest queue
      exact (alone init rest queue).elim
    · rfl

/-- A statement that is read is one of the transitions. -/
theorem step_leads (stmt : Stmt) : Leads (step stmt) s (Transition s stmt) := by
  have passed : ∀ {item item' : Item}, item.isRead = false → item'.isRead = false →
      s.session.scopes.Notes item' s.session.scopes → Carries item s.queue item' s.queue →
      Leads (emit (.item item')) s (Transition s (.item item)) := by
    intro item item' before after notes carried
    refine (emit_leads _).mono fun s' added => ?_
    exact .passes before after notes (.inl rfl) added carried
  -- One case for each kind of item that is looked at; all others are passed on.
  unfold step
  split
  · -- Those that open or close something, and variables, have lemmas of their own.
    exact openFunction_leads _
  · exact openClause_leads _
  · exact openBare_leads _
  · exact close_leads _
  · exact addVariable_leads _
  · exact .fail _
  · -- The name of a label is claimed, and then the label is passed on.
    refine (claimGlobal_leads _ _).andThen fun _ claimed same => .change ?_
    subst same
    refine (emit_leads _).mono fun s' added => ?_
    exact .passes rfl rfl (.label _) (.inl rfl) added (.same (by rintro _ ⟨⟩) _)
  · -- A type is put into the table.
    exact .modified (.types _)
  · -- A `return` has to stand in a function of its kind.
    refine .read ?_
    split
    · exact .fail _
    · split
      · exact .fail _
      · exact passed rfl rfl (.same rfl) (.ret _ _ _)
  · -- Calls and instructions are noted in the open scope; the end of a file has nothing open.
    exact .read (passed rfl rfl (.same rfl) (.call _ _ _))
  · exact .read (passed rfl rfl (.same rfl) (.instruction _ _ _))
  · refine checkClosed_leads.andThen fun _ checked same => ?_
    obtain ⟨rfl, -⟩ := same
    exact passed rfl rfl (.same rfl) (.same (by rintro _ ⟨⟩) _)
  · exact passed rfl rfl (.same rfl) (.same (by rintro _ ⟨⟩) _)
  · exact passed rfl rfl (.same rfl) (.same (by rintro _ ⟨⟩) _)
  · -- Trees are passed on as they are.
    refine (emit_leads _).mono fun s' added => .tree ?_ added
    exact fun _ same => nomatch same
  · refine (emit_leads _).mono fun s' added => .tree ?_ added
    exact fun _ same => nomatch same

/-! ### Reading to the end -/

/-- One statement is read. -/
inductive Advances (s : Nesting) : Nesting → Prop
  | mk {s' : Nesting} {stmt : Stmt} {rest : List Stmt} (queued : s.queue = stmt :: rest)
    (ran : step stmt { s with queue := rest } = .ok () s') : Advances s s'

/-- The states that reading comes to, statement by statement. -/
def Visits : Nesting → Nesting → Prop :=
  Relation.ReflTransGen Advances

/-- Reading goes on from every state that it comes to. -/
theorem Visits.run_eq (visits : s.Visits s') : run s' = run s := by
  -- By induction on the statements that are read.
  induction visits with
  | refl => rfl
  | tail _ advances ih =>
    obtain ⟨queued, ran⟩ := advances
    rw [← ih]
    symm
    -- The statement is there, and reading it succeeds.
    rw [run]
    split
    · rename_i empty
      cases queued.symm.trans empty
    · rename_i stmt rest here
      cases queued.symm.trans here
      split
      · rename_i after passed
        cases ran.symm.trans passed
        rfl
      · rename_i failed
        cases ran.symm.trans failed

/-- Reading succeeds in a state that it comes to, with nothing left to be read and nothing open. -/
theorem run_eq_ok {output : List Stmt} (ran : run s = .ok output s') :
    s.Visits s' ∧ s'.queue = [] ∧ s'.frames = [] ∧ s'.bare = [] ∧ output = s'.output := by
  -- By induction on the statements that are read; the last check finds nothing open.
  fun_induction run s with
  | case1 state queued later passed =>
    obtain ⟨rfl, frames, bare⟩ := checkClosed_leads passed
    cases ran
    exact ⟨.refl, queued, frames, bare, rfl⟩
  | case2 => cases ran
  | case3 state stmt rest queued later passed _ ih =>
    obtain ⟨visits, ended⟩ := ih ran
    exact ⟨.head (.mk queued passed) visits, ended⟩
  | case4 => cases ran

/-- Reading fails in a state that it comes to, with a statement or because something is open. -/
theorem run_eq_error {e : Error} (ran : run s = .error e s') :
    ∃ last, s.Visits last ∧ (checkClosed last = .error e s' ∨
      ∃ stmt rest, last.queue = stmt :: rest ∧
        step stmt { last with queue := rest } = .error e s') := by
  -- By induction on the statements that are read, up to the one that fails.
  fun_induction run s with
  | case1 => cases ran
  | case2 state queued e' later failed =>
    cases ran
    exact ⟨state, .refl, .inl failed⟩
  | case3 state stmt rest queued later passed _ ih =>
    obtain ⟨last, visits, failed⟩ := ih ran
    exact ⟨last, .head (.mk queued passed) visits, failed⟩
  | case4 state stmt rest queued e' later failed =>
    cases ran
    exact ⟨state, .refl, .inr ⟨stmt, rest, queued, failed⟩⟩

end Nesting

end CrossAsm
