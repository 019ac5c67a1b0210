import CrossAsm.Proofs.Nesting.Transitions

/-! Scopes and containers stay in step: one scope is open for each block that is open, and a container
has an open block unless it is an `if` that waits for its `else`. -/

namespace CrossAsm

/-! ### Namespaces inside others -/

/-- A namespace a number of scopes inside another one. -/
def Namespace.Inside (start : Namespace) (count : Nat) (ns : Namespace) : Prop :=
  ∃ inner, ns.path = start.path ++ inner ∧ inner.length = count

namespace ScopeTable

variable {start ns : Namespace} {table later : ScopeTable} {count count' : Nat}

/-- One scope more is opened. -/
theorem inside_push (inside : start.Inside count table.current) (name : Option String)
    (more : count' = count + 1) : start.Inside count' (table.push name).current := by
  -- The path is longer by the name of the new scope, given or made up.
  obtain ⟨inner, path, length⟩ := inside
  cases name with
  | none =>
    refine ⟨inner ++ [anonymousName table.anonymous], ?_, by simp [length, more]⟩
    simp [push, Namespace.child, path]
  | some name =>
    refine ⟨inner ++ [name], ?_, by simp [length, more]⟩
    simp [push, Namespace.child, path]

/-- The innermost scope is left. -/
theorem inside_pop (inside : start.Inside count table.current)
    (popped : table.pop = .ok (ns, later)) (less : count = count' + 1) :
    start.Inside count' later.current := by
  -- The path is shorter by its last name.
  obtain ⟨inner, path, length⟩ := inside
  unfold pop Namespace.parent? at popped
  split at popped
  · rename_i parent left
    cases popped
    split at left
    · cases left
    · -- At least one scope is inside, so that the last name is one of those.
      cases left
      have some : inner ≠ [] := by
        intro none
        simp [none] at length
        omega
      refine ⟨inner.dropLast, ?_, by simp [length, less]⟩
      rw [path, List.dropLast_append_of_ne_nil some]
  · cases popped

/-- Only the global scope cannot be left. -/
theorem pop_ne_error (inside : start.Inside count table.current) (one : 1 ≤ count) (e : Error) :
    table.pop ≠ .error e := by
  -- The path is that of the start and one name more, so that it is not empty.
  obtain ⟨inner, path, length⟩ := inside
  unfold pop Namespace.parent?
  split
  · nofun
  · rename_i outermost
    split at outermost
    · rename_i global
      rw [path, List.append_eq_nil_iff] at global
      simp [global.2] at length
      omega
    · cases outermost

end ScopeTable

/-- No scope is inside. -/
theorem Namespace.Inside.eq {start ns : Namespace} (inside : start.Inside 0 ns) : ns = start := by
  -- The names inside are none, so that both paths are the same.
  obtain ⟨inner, path, length⟩ := inside
  rw [List.length_eq_zero_iff.1 length, List.append_nil] at path
  cases ns
  cases start
  exact congrArg _ path

namespace Nesting

variable {s s' : Nesting} {start : Namespace}

/-- How many blocks of each container are open, the innermost first. -/
def depths (s : Nesting) : List Nat :=
  s.frames.map Frame.depth

/-- Scopes and containers in step, from a namespace on. -/
structure InStep (start : Namespace) (s : Nesting) : Prop where
  /-- One scope is open for each block. -/
  scopes : start.Inside (total s.depths + s.bare.length) s.session.scopes.current
  /-- Every container has an open block, but for an `if` that is followed by its `else`. -/
  blocks : (∀ depth ∈ s.depths, 1 ≤ depth) ∨
    ∃ outer, s.depths = 0 :: outer ∧ (∀ depth ∈ outer, 1 ≤ depth) ∧ startsElse s.queue = true

/-! ### What adding a statement leaves alone -/

/-- A statement that is added opens and closes nothing. -/
theorem Adds.same {stmt : Stmt} (added : Adds stmt s s') :
    s'.depths = s.depths ∧ s'.bare = s.bare ∧ s'.session = s.session := by
  -- Adding to a container leaves how many of its blocks are open.
  cases added with
  | inside frames => simp [depths, frames]
  | outside => exact ⟨rfl, rfl, rfl⟩

/-- A mark that is put back opens and closes nothing yet. -/
theorem cascaded_same (s : Nesting) (pos : Pos) :
    (s.cascaded pos).depths = s.depths ∧ (s.cascaded pos).bare = s.bare ∧
      (s.cascaded pos).session = s.session := by
  -- Nothing is put back, or only the queue is changed.
  unfold cascaded
  split
  · exact ⟨rfl, rfl, rfl⟩
  · rename_i frames
    simp [depths, frames]

/-- Containers with open blocks, and as many scopes. -/
theorem InStep.ofOpen {depths : List Nat} {bare : List Pos} {session : Session}
    (same : s.depths = depths ∧ s.bare = bare ∧ s.session = session)
    (scopes : start.Inside (total depths + bare.length) session.scopes.current)
    (blocks : ∀ depth ∈ depths, 1 ≤ depth) : s.InStep start := by
  -- Every container has an open block, so that none is left to be closed.
  obtain ⟨rfl, rfl, rfl⟩ := same
  exact ⟨scopes, .inl blocks⟩

/-- A finished container is added to the one around it, and all that are left have open blocks. -/
theorem Adds.inStep {stmt : Stmt} (added : Adds stmt s s')
    (scopes : start.Inside (total s.depths + s.bare.length) s.session.scopes.current)
    (blocks : ∀ depth ∈ s.depths, 1 ≤ depth) (pos : Pos) : (s'.cascaded pos).InStep start := by
  -- Neither adding nor closing blocks on its own changes what the invariant counts.
  obtain ⟨depths, bare, session⟩ := added.same
  obtain ⟨depths', bare', session'⟩ := cascaded_same s' pos
  exact .ofOpen ⟨depths'.trans depths, bare'.trans bare, session'.trans session⟩ scopes blocks

/-- A block that is opened, in the conditional that the clause belongs to. -/
theorem Starts.depths {ns : Namespace} {clause : Clause} {frames outer : List Frame}
    {cond : Conditional Stmt} {oneLine : Bool}
    (starts : Starts ns clause frames cond oneLine outer) :
    (clause.kind ≠ .otherwise ∧ outer.map Frame.depth = frames.map Frame.depth) ∨
      0 :: outer.map Frame.depth = frames.map Frame.depth := by
  -- By the way the clause starts: a new conditional, or one that waits for a block.
  cases starts with
  | fresh kind => exact .inl ⟨kind, rfl⟩
  | otherwise _ _ depth => exact .inr (by simp [Frame.depth, depth])
  | case kind => exact .inl ⟨by simp [kind], rfl⟩
  | default kind => exact .inl ⟨by simp [kind], rfl⟩

/-- While anything but an `else` is read, every container has an open block. -/
theorem InStep.allOpen (inStep : s.InStep start) {stmt : Stmt} {rest : List Stmt}
    (queued : s.queue = stmt :: rest)
    (other : ∀ pos, stmt ≠ .item (.clause ⟨.otherwise, pos⟩)) : ∀ depth ∈ s.depths, 1 ≤ depth := by
  -- The one container that may lack a block is an `if` in front of its `else`.
  obtain all | ⟨outer, -, -, next⟩ := inStep.blocks
  · exact all
  · rw [queued] at next
    unfold startsElse at next
    split at next
    · rename_i pos _ same
      cases same
      exact (other pos rfl).elim
    · cases next

/-- When the last block of the innermost container is closed, as many scopes are left as the blocks
around it. -/
theorem inside_last {frame : Frame} {outer : List Frame} {ns : Namespace} {table : ScopeTable}
    (scopes : start.Inside (total s.depths + s.bare.length) s.session.scopes.current)
    (allOpen : ∀ depth ∈ s.depths, 1 ≤ depth) (frames : s.frames = frame :: outer)
    (last : frame.depth ≤ 1) (popped : s.session.scopes.pop = .ok (ns, table)) :
    start.Inside (total (outer.map Frame.depth) + s.bare.length) table.current ∧
      ∀ depth ∈ outer.map Frame.depth, 1 ≤ depth := by
  -- The innermost container accounts for one scope and is gone.
  simp only [depths, frames, List.map_cons, total_cons, List.forall_mem_cons] at scopes allOpen
  refine ⟨ScopeTable.inside_pop scopes popped ?_, allOpen.2⟩
  have single := allOpen.1
  omega

/-- Every transition keeps scopes and containers in step, if every container but an `if` before its
`else` has an open block. -/
theorem Transition.inStep {stmt : Stmt} (moves : Transition s stmt s')
    (scopes : start.Inside (total s.depths + s.bare.length) s.session.scopes.current)
    (allOpen : (∀ pos, stmt ≠ .item (.clause ⟨.otherwise, pos⟩)) → ∀ depth ∈ s.depths, 1 ≤ depth)
    (outerOpen : ∀ depth ∈ s.depths.tail, 1 ≤ depth) : s'.InStep start := by
  -- By cases on the transition; a scope is opened with each block, and left with it.
  unfold depths at scopes allOpen outerOpen
  cases moves with
  | types decl => exact ⟨scopes, .inl (allOpen (by simp))⟩
  | passes before after notes read added =>
    -- A statement that is passed on opens nothing.
    rw [← notes.current] at scopes
    refine .ofOpen added.same scopes (allOpen ?_)
    intro pos same
    cases same
    cases before
  | tree tree added => exact .ofOpen added.same scopes (allOpen fun _ => tree _)
  | function frames bare queue =>
    -- A function opens its block and its scope.
    rw [frames, bare] at scopes
    refine ⟨?_, .inl (by simp [depths, reading, Frame.depth])⟩
    refine ScopeTable.inside_push scopes _ ?_
    simp [depths, reading, Frame.depth, bare]
  | @block clause cond oneLine child outer queue pos starts follows =>
    have deep : (opened cond).depth = 1 := by simp [opened]
    have after : depths (s.reading (s.session.scopes.push none) queue
        (.conditional (opened cond) (oneLine || child) :: outer)) = 1 :: outer.map Frame.depth := by
      simp [depths, reading, Frame.depth, deep]
    -- Either the conditional is new, or its block had been closed.
    obtain ⟨other, same⟩ | waited := starts.depths
    · have each := allOpen fun pos same => by
        cases same
        exact other rfl
      refine .ofOpen ⟨after, rfl, rfl⟩ (ScopeTable.inside_push scopes _ ?_) ?_
      · simp only [reading, same, total_cons]
        omega
      · rw [same]
        simpa using each
    · -- The block of an `else` is opened in a conditional that had none open.
      rw [← waited] at scopes outerOpen
      refine .ofOpen ⟨after, rfl, rfl⟩ (ScopeTable.inside_push scopes _ ?_) ?_
      · simp only [reading, total_cons]
        omega
      · simpa using outerOpen
  | @deepens pos frame outer frames takes =>
    -- A block inside of a container is one more of each.
    rw [frames] at scopes outerOpen
    refine ⟨ScopeTable.inside_push scopes _ ?_, .inl ?_⟩
    · simp only [depths, reading, List.map_cons, total_cons, Frame.depth_add, Frame.depth_withDepth]
      omega
    · simpa [depths, reading] using outerOpen
  | opensBare frames =>
    -- Bare blocks are counted apart from those of containers.
    refine ⟨ScopeTable.inside_push scopes _ ?_, .inl (allOpen (by simp))⟩
    simp only [depths, reading, List.length_cons]
    omega
  | closesBare frames bare popped =>
    refine ⟨ScopeTable.inside_pop scopes popped ?_, .inl (allOpen (by simp))⟩
    simp only [depths, reading, bare, List.length_cons]
    omega
  | @rises pos frame outer ns table frames takes deep popped =>
    -- Leaving a block inside of a container is one less of each.
    rw [frames] at scopes outerOpen
    refine ⟨ScopeTable.inside_pop scopes popped ?_, .inl ?_⟩
    · simp only [depths, reading, List.map_cons, total_cons, Frame.depth_add, Frame.depth_withDepth]
      omega
    · have less : 1 ≤ frame.depth - 1 := by omega
      simpa [depths, reading, less] using outerOpen
  | endsFunction frames last popped added =>
    -- With its last block a container is finished, and what is around it has open blocks.
    obtain ⟨inside, around⟩ := inside_last scopes (allOpen (by simp)) frames last popped
    exact added.inStep inside around _
  | @waits pos cond oneLine outer ns table frames last popped form next =>
    -- The conditional stays where it is, with no block open.
    obtain ⟨inside, around⟩ := inside_last scopes (allOpen (by simp)) frames last popped
    have none : (closed cond).depth = 0 := by simp [closed]
    refine ⟨?_, .inr ⟨outer.map Frame.depth, ?_, around, next⟩⟩
    · simpa [depths, reading, Frame.depth, none] using inside
    · simp [depths, reading, Frame.depth, none]
  | endsConditional frames last popped ends added =>
    obtain ⟨inside, around⟩ := inside_last scopes (allOpen (by simp)) frames last popped
    exact added.inStep inside around _
  | endsArm frames last popped form single =>
    -- The switch that takes the block is as deep as before.
    obtain ⟨inside, around⟩ := inside_last scopes (allOpen (by simp)) frames last popped
    exact .ofOpen (cascaded_same _ _) inside around

/-- Reading a statement keeps scopes and containers in step. -/
theorem Advances.inStep (advances : s.Advances s') (inStep : s.InStep start) : s'.InStep start := by
  -- The statement makes a transition, from a state in which the invariant is taken apart.
  obtain ⟨queued, ran⟩ := advances
  refine Transition.inStep (step_leads _ ran) inStep.scopes (inStep.allOpen queued) ?_
  show ∀ depth ∈ s.depths.tail, 1 ≤ depth
  obtain all | ⟨outer, waits, around, -⟩ := inStep.blocks
  · exact fun depth inside => all depth (List.mem_of_mem_tail inside)
  · rw [waits]
    exact around

/-- At all times scopes and containers are in step. -/
theorem Visits.inStep (visits : s.Visits s') (inStep : s.InStep start) : s'.InStep start := by
  -- By induction on the statements that are read.
  induction visits with
  | refl => exact inStep
  | tail _ advances ih => exact advances.inStep ih

/-! ### Failures -/

/-- Steps that never fail for want of a scope to leave. -/
def StaysInside {α : Type} (m : NestingStep α) : Prop :=
  Guarded (fun _ => True) (· ≠ .popGlobal) m

/-- A change is no failure. -/
theorem modify_stays (f : Nesting → Nesting) : StaysInside (modify f) :=
  .modify fun _ _ => trivial

/-- Adding a statement leaves no scope. -/
theorem emit_stays (stmt : Stmt) : StaysInside (emit stmt) := by
  -- The statement goes to the output, to a body, or is refused.
  refine .read fun state _ => ?_
  split
  · exact modify_stays _
  · split
    · exact .throw nofun
    · exact modify_stays _
  · exact modify_stays _

/-- Claiming a name leaves no scope. -/
theorem claimGlobal_stays (symbol : Symbol) (pos : Pos) : StaysInside (claimGlobal symbol pos) := by
  -- The name is free, claimed before in the same way, or taken.
  refine .read fun state _ => ?_
  split
  · split
    · exact .throw nofun
    · exact .pure _
  · exact .pure _

/-- Checking for open blocks leaves no scope. -/
theorem checkClosed_stays : StaysInside checkClosed := by
  -- There is an error for an open container, one for a bare block, or none.
  refine .read fun state _ => ?_
  simp only
  split
  · exact .throw nofun
  · exact .throw nofun
  · exact .pure _

/-- Putting a mark back leaves no scope yet. -/
theorem cascade_stays (pos : Pos) : StaysInside (cascade pos) := by
  -- A mark is put back in front of the queue if one waits.
  refine .read fun state _ => ?_
  split
  · exact (modify_stays _).bind fun _ => modify_stays _
  · exact .pure _

/-- Opening a block leaves no scope. -/
theorem openBlock_stays (cond : Conditional Stmt) (oneLine : Bool) (outer : List Frame) :
    StaysInside (openBlock cond oneLine outer) := by
  -- A scope is opened and not left.
  refine (modify_stays _).bind fun _ => .read fun state _ => ?_
  simp only
  split
  · exact (modify_stays _).bind fun _ => modify_stays _
  · exact .throw nofun

/-- A clause leaves no scope. -/
theorem openClause_stays (clause : Clause) : StaysInside (openClause clause) := by
  -- Opening a block leaves no scope, and a clause that is refused fails otherwise.
  refine .read fun state _ => ?_
  simp only
  -- Each clause opens a block or is refused where it stands.
  split
  · split
    · split
      · exact openBlock_stays _ _ _
      · exact .throw nofun
    · exact .throw nofun
  · split
    · split
      · exact openBlock_stays _ _ _
      · exact .throw nofun
    · exact .throw nofun
  · split
    · split
      · split
        · exact .throw nofun
        · exact openBlock_stays _ _ _
      · exact .throw nofun
    · exact .throw nofun
  · exact openBlock_stays _ _ _

/-- A finished conditional has left its scope before. -/
theorem finishConditional_stays (cond : Conditional Stmt) (pos : Pos) :
    StaysInside (finishConditional cond pos) :=
  (emit_stays _).bind fun _ => cascade_stays pos

/-- A case that goes to its switch has left its scope before. -/
theorem attachCase_stays (cond : Conditional Stmt) (pos : Pos) :
    StaysInside (attachCase cond pos) := by
  -- The switch around takes the case, or the case is refused.
  unfold attachCase
  split
  · exact .throw nofun
  · refine .read fun state _ => ?_
    split
    · exact (modify_stays _).bind fun _ => cascade_stays pos
    · exact .throw nofun

/-- A conditional whose scope is left leaves no other one. -/
theorem closeConditional_stays (cond : Conditional Stmt) (oneLine : Bool) (outer : List Frame)
    (pos : Pos) : StaysInside (closeConditional cond oneLine outer pos) := by
  -- By the kind of the clause: the conditional waits, is finished, or goes to its switch.
  refine .read fun state _ => ?_
  simp only
  split
  · exact modify_stays _
  · exact (modify_stays _).bind fun _ => (modify_stays _).bind fun _ => finishConditional_stays _ _
  · exact .throw nofun
  · exact (modify_stays _).bind fun _ => attachCase_stays _ _
  · exact (modify_stays _).bind fun _ => attachCase_stays _ _
  · exact (modify_stays _).bind fun _ => finishConditional_stays _ _

/-- A function whose scope is left leaves no other one. -/
theorem finishFunction_stays (func : Function Stmt) (pos : Pos) :
    StaysInside (finishFunction func pos) :=
  (claimGlobal_stays _ _).bind fun _ => (modify_stays _).bind fun _ =>
    (emit_stays _).bind fun _ => cascade_stays pos

/-- A variable leaves no scope. -/
theorem declareVariable_stays (var : Variable) : StaysInside (declareVariable var) := by
  -- The name is claimed first if it is global.
  refine .read fun state _ => .bind ?_ fun _ => (modify_stays _).bind fun _ => emit_stays _
  unfold claimIn
  split
  · exact claimGlobal_stays _ _
  · exact .pure _

/-- A step that does not fail for want of a scope to leave, from one state. -/
def Passable {α : Type} (m : NestingStep α) (s : Nesting) : Prop :=
  ∀ s', m s ≠ .error .popGlobal s'

/-- Steps that never fail so do not fail here. -/
theorem StaysInside.passable {α : Type} {m : NestingStep α} (stays : StaysInside m) :
    Passable m s :=
  fun _ failed => (stays.fails trivial failed).2 rfl

/-- Looking at the state does not fail. -/
theorem Passable.read {α : Type} {f : Nesting → NestingStep α} (rest : Passable (f s) s) :
    Passable ((get : NestingStep Nesting) >>= f) s :=
  rest

/-- Where a scope is left there is one, and nothing behind it leaves another. -/
theorem Passable.pop {α : Type} {k : PUnit → NestingStep α} {count : Nat}
    (inside : start.Inside count s.session.scopes.current) (one : 1 ≤ count)
    (rest : ∀ a, StaysInside (k a)) : Passable (popScope >>= k) s := by
  -- A scope inside the start can be left, so that the failure comes from what is behind it.
  intro s' failed
  have ran : EStateM.bind popScope k s = .error .popGlobal s' := failed
  cases popped : s.session.scopes.pop with
  | ok result =>
    have left : popScope s = .ok () (s.reading result.2 s.queue s.frames) := by
      rw [popScope, get_bind, popped]
      rfl
    rw [EStateM.bind, left] at ran
    exact ((rest ()).fails trivial ran).2 rfl
  | error e => exact ScopeTable.pop_ne_error inside one e popped

/-- The innermost block has a scope to leave. -/
theorem close_passable (pos : Pos)
    (scopes : start.Inside (total s.depths + s.bare.length) s.session.scopes.current)
    (allOpen : ∀ depth ∈ s.depths, 1 ≤ depth) : Passable (close pos) s := by
  -- A bare block counts one scope, and a container with an open block at least one.
  have one : ∀ {frame outer}, s.frames = frame :: outer → 1 ≤ total s.depths + s.bare.length := by
    intro frame outer frames
    have isOpen := allOpen frame.depth (by simp [depths, frames])
    simp only [depths, frames, List.map_cons, total_cons]
    omega
  refine .read ?_
  -- Outside of all containers the end closes a bare block, if there is one.
  split
  · split
    · exact StaysInside.passable (.throw nofun)
    · rename_i begins rest bare
      have some : 1 ≤ total s.depths + s.bare.length := by
        simp only [bare, List.length_cons]
        omega
      exact Passable.pop (s := { s with bare := rest }) scopes some fun _ => emit_stays _
  · -- The end of a block of a function, or of the function.
    rename_i func depth outer frames
    refine .pop scopes (one frames) fun _ => ?_
    split
    · exact (modify_stays _).bind fun _ => emit_stays _
    · exact (modify_stays _).bind fun _ => finishFunction_stays _ _
  · -- The end of a block of a conditional, or of its last one.
    rename_i cond oneLine outer frames
    refine .pop scopes (one frames) fun _ => ?_
    simp only
    split
    · exact (modify_stays _).bind fun _ => emit_stays _
    · exact closeConditional_stays _ _ _ _

/-- No statement fails for want of a scope to leave. -/
theorem step_passable {stmt : Stmt}
    (scopes : start.Inside (total s.depths + s.bare.length) s.session.scopes.current)
    (allOpen : (∀ pos, stmt ≠ .item (.clause ⟨.otherwise, pos⟩)) → ∀ depth ∈ s.depths, 1 ≤ depth) :
    Passable (step stmt) s := by
  -- Only the end of a block leaves a scope.
  unfold step
  split
  · -- A function is entered if it is not inside of another one.
    refine StaysInside.passable (.read fun state _ => ?_)
    split
    · exact .throw nofun
    · split
      · exact (modify_stays _).bind fun _ => (modify_stays _).bind fun _ => modify_stays _
      · exact .throw nofun
  · -- A clause opens a block, and so does a brace on its own.
    exact (openClause_stays _).passable
  · refine StaysInside.passable (.bind (.read fun state _ => ?_) fun _ =>
      (modify_stays _).bind fun _ => emit_stays _)
    split
    · exact modify_stays _
    · exact modify_stays _
    · exact modify_stays _
  · -- The end of a block has a scope to leave.
    exact close_passable _ scopes (allOpen (by simp))
  · -- A variable, with what may follow it.
    refine StaysInside.passable (.read fun state _ => ?_)
    split
    · exact (modify_stays _).bind fun _ => declareVariable_stays _
    · exact declareVariable_stays _
  · -- An initializer on its own fails for another reason; a label claims its name.
    exact StaysInside.passable (.throw nofun)
  · exact StaysInside.passable ((claimGlobal_stays _ _).bind fun _ => (modify_stays _).bind fun _ =>
      emit_stays _)
  · exact (modify_stays _).passable
  · -- A return has to fit its function; all other items are emitted.
    refine StaysInside.passable (.read fun state _ => ?_)
    split
    · exact .throw nofun
    · split
      · exact .throw nofun
      · exact emit_stays _
  · exact StaysInside.passable (.read fun _ _ => emit_stays _)
  · exact StaysInside.passable (.read fun _ _ => emit_stays _)
  · exact StaysInside.passable (checkClosed_stays.bind fun _ => emit_stays _)
  · exact (emit_stays _).passable
  · exact (emit_stays _).passable
  · exact (emit_stays _).passable
  · exact (emit_stays _).passable

/-- Reading never fails for want of a scope to leave. -/
theorem run_ne_popGlobal (inStep : s.InStep start) (s' : Nesting) :
    run s ≠ .error .popGlobal s' := by
  -- The failure is that of the last statement or of the check at the end.
  intro failed
  obtain ⟨last, visits, failed⟩ := run_eq_error failed
  have inStep := visits.inStep inStep
  obtain unclosed | ⟨stmt, rest, queued, failed⟩ := failed
  · exact checkClosed_stays.passable _ unclosed
  · exact step_passable (s := { last with queue := rest }) inStep.scopes (inStep.allOpen queued) _
      failed

end Nesting

/-- At every step of nesting, the scope that is open lies as many scopes inside the one at the start
as blocks are open, in containers and outside; and a container whose block is closed has one open.
So nesting never leaves the global scope, and when it succeeds it is back where it started. -/
theorem scopes_follow_blocks (session : Session) (stmts : List Stmt) :
    (∀ state, Nesting.Visits { session, queue := stmts } state →
      Nesting.run state = Nesting.run { session, queue := stmts } ∧
      (∃ inner, state.session.scopes.current.path = session.scopes.current.path ++ inner ∧
        inner.length = total (state.frames.map Frame.depth) + state.bare.length) ∧
      ∀ pos rest frame outer, state.queue = .item (.scopeEnd pos) :: rest →
        state.frames = frame :: outer → 1 ≤ frame.depth) ∧
    (∀ later, nest stmts session ≠ .error .popGlobal later) ∧
    ∀ nested later, nest stmts session = .ok nested later →
      later.scopes.current = session.scopes.current := by
  -- The invariant holds at the start and at every visited state; the parts are read off it.
  have start : Nesting.InStep session.scopes.current { session, queue := stmts } :=
    ⟨⟨[], by simp, rfl⟩, .inl nofun⟩
  refine ⟨fun state visits => ⟨visits.run_eq, (visits.inStep start).scopes, ?_⟩, ?_, ?_⟩
  · -- A container has an open block where a statement is read.
    intro pos rest frame outer queued frames
    exact (visits.inStep start).allOpen queued nofun _ (by simp [Nesting.depths, frames])
  · -- Failing for want of a scope is not among the failures of a run.
    intro later failed
    unfold nest at failed
    cases ran : Nesting.run { session, queue := stmts } with
    | ok => simp [ran] at failed
    | error e state =>
      simp only [ran, EStateM.Result.error.injEq] at failed
      exact Nesting.run_ne_popGlobal start state (failed.1 ▸ ran)
  · intro nested later done
    unfold nest at done
    cases ran : Nesting.run { session, queue := stmts } with
    | ok output state =>
      obtain ⟨visits, -, frames, bare, -⟩ := Nesting.run_eq_ok ran
      simp only [ran, EStateM.Result.ok.injEq] at done
      obtain ⟨-, rfl⟩ := done
      -- Nothing is open at the end.
      have inside := (visits.inStep start).scopes
      simp only [Nesting.depths, frames, bare, List.map_nil, total_nil, List.length_nil] at inside
      exact inside.eq
    | error => simp [ran] at done

/-- A function with an `else`, neither branch of which is in braces, and a block on its own. -/
def branching : List Stmt :=
  let clause (kind : ClauseKind) : Item := .clause ⟨kind, default⟩
  let instruction (op : Op) : Item := .instruction (.unresolved op .none .global default)
  [.functionDecl ⟨"main", .subroutine, false, [], default⟩, .scopeBegin default,
    clause (.ifTest ⟨.near, .is, .zero⟩), clause (.whileTest ⟨.near, .is, .carry⟩), instruction .inx,
    clause .otherwise, instruction .dex, .scopeEnd default,
    .scopeBegin default, .label ⟨"again", default⟩, .scopeEnd default].map .item

/-- Nesting them inside a scope ends in that scope. -/
theorem branching_back :
    let session : Session := { cpu := .nmos, scopes := ScopeTable.push {} (some "outer") }
    ∃ nested later, nest branching session = .ok nested later ∧
      later.scopes.current.path = ["outer"] := by
  -- The nesting is evaluated as far as that it succeeds.
  intro session
  have evaluated : succeedsWith (fun _ _ => true) (nest branching session) = true := by
    decide +kernel
  obtain ⟨nested, later, ran, -⟩ := exists_of_succeedsWith evaluated
  obtain ⟨-, -, back⟩ := scopes_follow_blocks session branching
  exact ⟨nested, later, ran, congrArg Namespace.path (back nested later ran)⟩

end CrossAsm
