import CrossAsm.Nesting
import CrossAsm.Proofs.Failures

/-! What the statements of inline functions hold. Splicing marks every call in them but those in a
subroutine, and nesting never puts a subroutine into a function. -/

namespace CrossAsm

/-- A statement that holds no subroutine, so that splicing reaches every call in it. -/
inductive Stmt.Spliceable : Stmt → Prop
  | item (item : Item) : Spliceable (.item item)
  | inline {func : Function Stmt} (isInline : func.decl.isInline = true) :
    Spliceable (.function func)
  | conditional {cond : Conditional Stmt}
    (each : ∀ block ∈ cond.blocks, ∀ s ∈ block.body, Spliceable s) : Spliceable (.conditional cond)

namespace ScopeTable

/-- An inline function that a table holds under some name. -/
def HoldsInline (table : ScopeTable) (func : FunctionSymbol) : Prop :=
  func.decl.isInline = true ∧ ∃ key, (key, .function func) ∈ table.symbols

/-- The inline functions of a table hold no subroutine. -/
def Spliceable (table : ScopeTable) : Prop :=
  ∀ func, table.HoldsInline func → ∀ s ∈ func.body, s.Spliceable

variable {table : ScopeTable}

/-- An inline function of a table is the one defined last, or was there before. -/
theorem HoldsInline.of_define {symbol : Symbol} {ns : Namespace} {func : FunctionSymbol}
    (holds : (table.define symbol ns).HoldsInline func) :
    symbol = .function func ∨ table.HoldsInline func := by
  -- An entry of the new table is the one defined or was in the old one.
  obtain ⟨isInline, key, inside⟩ := holds
  rcases Entries.mem_insert inside with same | before
  · exact .inl (Prod.mk.inj same).2.symm
  · exact .inr ⟨isInline, key, before⟩

/-- Defining a function whose statements hold no subroutine, or anything else, keeps a table. -/
theorem Spliceable.define (spliceable : table.Spliceable) {symbol : Symbol}
    (fits : ∀ func, symbol = .function func → func.decl.isInline = true →
      ∀ s ∈ func.body, s.Spliceable) (ns : Namespace) : (table.define symbol ns).Spliceable := by
  -- An inline function that the table holds is the new one or was there.
  intro func holds
  obtain same | before := holds.of_define
  · exact fits func same holds.1
  · exact spliceable func before

end ScopeTable

namespace Conditional

/-- No block of a conditional holds a subroutine. -/
def Spliceable (cond : Conditional Stmt) : Prop :=
  ∀ block ∈ cond.blocks, ∀ s ∈ block.body, s.Spliceable

/-- A conditional that has been opened has no statements yet. -/
theorem spliceable_ofClause (clause : Clause) (ns : Namespace) :
    (ofClause clause ns).Spliceable := by
  -- The only block is the one of the clause, and is empty.
  intro block inside s mem
  obtain rfl := List.mem_singleton.1 inside
  cases mem

/-- A property of all blocks is kept by a change of the block being read that keeps it. -/
theorem forall_modifyCurrent {cond : Conditional Stmt} {P : Block Stmt → Prop}
    (each : ∀ block ∈ cond.blocks, P block) {f : Block Stmt → Block Stmt}
    (keeps : ∀ block, P block → P (f block)) : ∀ block ∈ (cond.modifyCurrent f).blocks, P block := by
  -- The block being read is the last one, or the first if there is no other.
  have first := each cond.first (List.mem_cons_self ..)
  have others : ∀ block ∈ cond.others, P block :=
    fun block inside => each block (List.mem_cons_of_mem _ inside)
  unfold Conditional.modifyCurrent
  split
  · -- The first block is the only one.
    refine List.forall_mem_cons.2 ⟨keeps _ first, others⟩
  · rename_i last found
    refine List.forall_mem_cons.2 ⟨first, fun block inside => ?_⟩
    rcases List.mem_append.1 inside with before | here
    · exact others block (List.dropLast_subset _ before)
    · obtain rfl := List.mem_singleton.1 here
      exact keeps last (others last (List.mem_of_getLast? found))

/-- A property of all blocks holds with one more that has it. -/
theorem forall_addBlock {cond : Conditional Stmt} {P : Block Stmt → Prop}
    (each : ∀ block ∈ cond.blocks, P block) {block : Block Stmt} (fits : P block) :
    ∀ other ∈ (Nesting.addBlock cond block).blocks, P other := by
  -- The block is one of the old ones or the new one.
  intro other inside
  rcases List.mem_cons.1 inside with rfl | later
  · exact each _ (List.mem_cons_self ..)
  · rcases List.mem_append.1 later with before | here
    · exact each other (List.mem_cons_of_mem _ before)
    · obtain rfl := List.mem_singleton.1 here
      exact fits

/-- A change of the block being read that adds no subroutine. -/
theorem Spliceable.modifyCurrent {cond : Conditional Stmt} (spliceable : cond.Spliceable)
    {f : Block Stmt → Block Stmt}
    (keeps : ∀ block : Block Stmt, (∀ s ∈ block.body, s.Spliceable) →
      ∀ s ∈ (f block).body, s.Spliceable) : (cond.modifyCurrent f).Spliceable :=
  forall_modifyCurrent spliceable keeps

/-- A block more, without a subroutine. -/
theorem Spliceable.addBlock {cond : Conditional Stmt} (spliceable : cond.Spliceable)
    {block : Block Stmt} (fits : ∀ s ∈ block.body, s.Spliceable) :
    (Nesting.addBlock cond block).Spliceable :=
  forall_addBlock spliceable fits

end Conditional

/-- Containers that hold no subroutine; a function is only around all others. -/
def Frame.AllSpliceable : List Frame → Prop
  | [] => True
  | .function func _ :: outer => (∀ s ∈ func.body, s.Spliceable) ∧ outer = []
  | .conditional cond _ :: outer => cond.Spliceable ∧ AllSpliceable outer

namespace Nesting

/-- No subroutine is to be read, or in a container, or in an inline function. -/
structure Plain (state : Nesting) : Prop where
  /-- None is to be read. -/
  queue : ∀ s ∈ state.queue, s.Spliceable
  /-- None is in a container. -/
  frames : Frame.AllSpliceable state.frames
  /-- None is in an inline function. -/
  table : state.session.scopes.Spliceable

/-- Steps that put no subroutine anywhere, whether they succeed or not. -/
def KeepsPlain {α : Type} (m : NestingStep α) : Prop :=
  Guarded Plain (fun _ => True) m

variable {α : Type}

/-- A failure leaves everything. -/
theorem fail_plain (e : Error) : KeepsPlain (throw e : NestingStep α) :=
  .throw trivial

/-- Statements to be read without a subroutine. -/
theorem setQueue_plain {queue : List Stmt} (fits : ∀ s ∈ queue, s.Spliceable) :
    KeepsPlain (setQueue queue) :=
  .modify fun _ plain => ⟨fits, plain.frames, plain.table⟩

/-- Containers without a subroutine. -/
theorem setFrames_plain {frames : List Frame} (fits : Frame.AllSpliceable frames) :
    KeepsPlain (setFrames frames) :=
  .modify fun _ plain => ⟨plain.queue, fits, plain.table⟩

/-- A change of the scopes that leaves the symbols. -/
theorem scopes_plain {f : ScopeTable → ScopeTable}
    (same : ∀ table, (f table).symbols = table.symbols) : KeepsPlain (modifyScopes f) := by
  -- Only the symbols of the table matter.
  refine .modify fun state plain => ⟨plain.queue, plain.frames, ?_⟩
  intro func holds
  refine plain.table func ⟨holds.1, ?_⟩
  rw [← same]
  exact holds.2

/-- A definition that is no inline function with a subroutine. -/
theorem define_plain {symbol : ScopeTable → Symbol} {ns : ScopeTable → Namespace}
    (fits : ∀ table func, symbol table = .function func → func.decl.isInline = true →
      ∀ s ∈ func.body, s.Spliceable) :
    KeepsPlain (modifyScopes fun table => table.define (symbol table) (ns table)) :=
  .modify fun _ plain => ⟨plain.queue, plain.frames, plain.table.define (fits _) _⟩

/-- A scope is opened without a symbol. -/
theorem push_plain (name : Option String) : KeepsPlain (modifyScopes (·.push name)) :=
  scopes_plain fun table => by cases name <;> rfl

/-- A scope is left with its symbols. -/
theorem popScope_plain : KeepsPlain popScope := by
  -- A scope that cannot be left is a failure, which changes nothing.
  refine .read fun state plain => ?_
  split
  · rename_i popped
    refine .modify fun later plain' => ⟨plain'.queue, plain'.frames, ?_⟩
    -- Only the open scope is another one.
    unfold ScopeTable.pop at popped
    split at popped
    · cases popped
      exact plain.table
    · cases popped
  · exact fail_plain _

/-- A statement without a subroutine goes to a container or to what is done. -/
theorem emit_plain {stmt : Stmt} (fits : stmt.Spliceable) : KeepsPlain (emit stmt) := by
  -- The statement goes to the function, to the conditional, or to the output.
  have appended : ∀ {body : List Stmt}, (∀ s ∈ body, s.Spliceable) →
      ∀ s ∈ body ++ [stmt], s.Spliceable := by
    intro body before s inside
    rcases List.mem_append.1 inside with old | new
    · exact before s old
    · exact List.mem_singleton.1 new ▸ fits
  refine .read fun state plain => ?_
  have frames := plain.frames
  split
  · rename_i func depth rest same
    rw [same] at frames
    exact setFrames_plain ⟨appended frames.1, frames.2⟩
  · rename_i cond oneLine rest same
    rw [same] at frames
    split
    · exact fail_plain _
    · exact setFrames_plain ⟨frames.1.modifyCurrent fun _ => appended, frames.2⟩
  · exact .modify fun _ plain => ⟨plain.queue, plain.frames, plain.table⟩

/-- Claiming a name changes nothing. -/
theorem claimGlobal_guarded {inv : Nesting → Prop} (symbol : Symbol) (pos : Pos) :
    Guarded inv (fun _ => True) (claimGlobal symbol pos) := by
  -- The name is free, or taken in one way or the other.
  refine .read fun state _ => ?_
  split
  · split
    · exact .throw trivial
    · exact .pure _
  · exact .pure _

/-- Claiming a name changes nothing. -/
theorem claimIn_plain (ns : Namespace) (symbol : Symbol) (pos : Pos) :
    KeepsPlain (claimIn ns symbol pos) := by
  -- Only a global name is claimed.
  unfold claimIn
  split
  · exact claimGlobal_guarded symbol pos
  · exact .pure _

/-- Checking for open blocks changes nothing. -/
theorem checkClosed_plain : KeepsPlain checkClosed := by
  -- The state is read, and then there is an error or nothing.
  refine .read fun state _ => ?_
  simp only
  split <;> first | exact fail_plain _ | exact .pure _

/-- A mark that closes a block is read next. -/
theorem cascade_plain (pos : Pos) : KeepsPlain (cascade pos) := by
  -- The mark is an item, and the container was there.
  refine .read fun state plain => ?_
  split
  · rename_i cond rest same
    have frames := plain.frames
    rw [same] at frames
    have closing : KeepsPlain (setFrames (.conditional cond false :: rest)) :=
      setFrames_plain frames
    refine closing.bind fun _ => .modify fun _ plain => ⟨?_, plain.frames, plain.table⟩
    exact List.forall_mem_cons.2 ⟨.item _, plain.queue⟩
  · exact .pure _

/-- A function is opened only outside of all containers. -/
theorem openFunction_plain (decl : FunctionDecl) : KeepsPlain (openFunction decl) := by
  -- The new container is empty.
  refine .read fun state plain => ?_
  split
  · exact fail_plain _
  · split
    · rename_i pos rest same
      have queue := plain.queue
      rw [same] at queue
      refine (setQueue_plain (List.forall_mem_cons.1 queue).2).bind fun _ => ?_
      exact .bind (setFrames_plain ⟨nofun, rfl⟩) fun _ => push_plain _
    · exact fail_plain _

/-- The statements after a clause are those that are to be read, and a mark. -/
theorem openQueue_forall {P : Stmt → Prop} {pos : Pos} {queue queue' : List Stmt} {childOnly : Bool}
    (opened : openQueue pos queue = some (queue', childOnly)) (mark : P (.item (.scopeEnd pos)))
    (fits : ∀ s ∈ queue, P s) : ∀ s ∈ queue', P s := by
  -- By what stands behind the clause.
  unfold openQueue at opened
  split at opened
  · -- The mark that opens the block is taken away.
    cases opened
    exact (List.forall_mem_cons.1 fits).2
  · split at opened
    · cases opened
    · cases opened
      exact fits
  · -- A block without marks is one statement; a variable brings its initializer along.
    cases opened
    obtain ⟨var, init, rest⟩ : _ ∧ _ ∧ _ := by simpa [List.forall_mem_cons] using fits
    exact List.forall_mem_cons.2 ⟨var, List.forall_mem_cons.2 ⟨init,
      List.forall_mem_cons.2 ⟨mark, rest⟩⟩⟩
  · split at opened
    · cases opened
      obtain ⟨first, rest⟩ := List.forall_mem_cons.1 fits
      exact List.forall_mem_cons.2 ⟨first, List.forall_mem_cons.2 ⟨mark, rest⟩⟩
    · cases opened
  · cases opened

/-- A block is opened in a conditional without a subroutine. -/
theorem openBlock_plain {cond : Conditional Stmt} {oneLine : Bool} {outer : List Frame}
    (fits : cond.Spliceable) (around : Frame.AllSpliceable outer) :
    KeepsPlain (openBlock cond oneLine outer) := by
  -- The block that is opened is one of the conditional.
  refine (push_plain none).bind fun _ => .read fun state plain => ?_
  -- The depth and the mark of the block change no statement.
  have deeper : Conditional.Spliceable { cond with depth := 1 } := fits
  simp only
  split
  · rename_i queue childOnly opened
    refine (setQueue_plain (openQueue_forall opened (.item _) plain.queue)).bind fun _ => ?_
    exact setFrames_plain ⟨deeper.modifyCurrent fun _ fits => fits, around⟩
  · exact fail_plain _

/-- A clause opens a block, or fails. -/
theorem openClause_plain (clause : Clause) : KeepsPlain (openClause clause) := by
  -- An `else` goes on with the conditional before it, all else starts a new one.
  refine .read fun state plain => ?_
  have frames := plain.frames
  simp only
  split
  · split
    · rename_i cond oneLine outer same
      rw [same] at frames
      split
      · -- A closed conditional goes on with an empty block.
        exact openBlock_plain (frames.1.addBlock nofun) frames.2
      · exact fail_plain _
    · exact fail_plain _
  · -- A case stands inside its switch, which is a container like any other.
    split
    · split
      · exact openBlock_plain (Conditional.spliceable_ofClause clause _) frames
      · exact fail_plain _
    · exact fail_plain _
  · -- A default stands there too, if it is the first one.
    split
    · rename_i cond oneLine outer same
      rw [same] at frames
      split
      · split
        · exact fail_plain _
        · exact openBlock_plain (Conditional.spliceable_ofClause clause _) ⟨frames.1, frames.2⟩
      · exact fail_plain _
    · exact fail_plain _
  · -- Any other clause opens a conditional of its own.
    exact openBlock_plain (Conditional.spliceable_ofClause clause _) frames

/-- A block that no clause governs. -/
theorem openBare_plain (pos : Pos) : KeepsPlain (openBare pos) := by
  -- Counting blocks changes no statement.
  have deepens : KeepsPlain (deepen pos) := by
    refine .read fun state plain => ?_
    have frames := plain.frames
    split
    · rename_i func depth rest same
      rw [same] at frames
      exact setFrames_plain ⟨frames.1, frames.2⟩
    · rename_i cond oneLine rest same
      rw [same] at frames
      exact setFrames_plain ⟨frames.1, frames.2⟩
    · exact .modify fun _ plain => ⟨plain.queue, plain.frames, plain.table⟩
  exact deepens.bind fun _ => (push_plain none).bind fun _ => emit_plain (.item _)

/-- A function whose statements hold no subroutine is finished outside of all containers. -/
theorem finishFunction_plain {func : Function Stmt} (fits : ∀ s ∈ func.body, s.Spliceable)
    (pos : Pos) : KeepsPlain (do setFrames []; finishFunction func pos) := by
  -- With no container left, the function itself is among what is done.
  let Top (state : Nesting) : Prop := Plain state ∧ state.frames = []
  -- Defining, emitting and putting back a mark keep what is claimed of the top.
  have defined : ∀ symbol : Symbol, (∀ other, symbol = .function other →
      other.decl.isInline = true → ∀ s ∈ other.body, s.Spliceable) →
      Guarded Top (fun _ => True) (modifyScopes (·.define symbol .global)) := by
    intro symbol fits
    refine .modify fun state top => ⟨⟨top.1.queue, top.1.frames, ?_⟩, top.2⟩
    exact top.1.table.define fits _
  have emitted : Guarded Top (fun _ => True) (emit (.function func)) := by
    refine .read fun state top => ?_
    rw [top.2]
    exact .modify fun _ top => ⟨⟨top.1.queue, top.1.frames, top.1.table⟩, top.2⟩
  have cascaded : Guarded Top (fun _ => True) (cascade pos) := by
    refine .read fun state top => ?_
    rw [top.2]
    exact .pure _
  have finished : Guarded Top (fun _ => True) (finishFunction func pos) := by
    refine (claimGlobal_guarded _ _).bind fun _ => (defined _ ?_).bind fun _ =>
      emitted.bind fun _ => cascaded
    -- The symbol of the function is that of an inline one only if it is inline.
    intro other same isInline
    cases same
    simp only at isInline ⊢
    rw [if_pos isInline]
    exact fits
  intro state plain
  -- The state in which it is finished is the one with its container taken away.
  have top : Top { state with frames := [] } := ⟨⟨plain.queue, trivial, plain.table⟩, rfl⟩
  have emptied : (do setFrames []; finishFunction func pos : NestingStep Unit) state =
      finishFunction func pos { state with frames := [] } := rfl
  rw [emptied]
  cases ran : finishFunction func pos { state with frames := [] } with
  | ok a later => exact (finished.kept top ran).1
  | error e later => exact ⟨(finished.fails top ran).1.1, trivial⟩

/-- A conditional without a subroutine is finished. -/
theorem finishConditional_plain {cond : Conditional Stmt} (fits : cond.Spliceable) (pos : Pos) :
    KeepsPlain (finishConditional cond pos) :=
  (emit_plain (.conditional fits)).bind fun _ => cascade_plain pos

/-- The block of a case is handed to its switch. -/
theorem attachCase_plain {cond : Conditional Stmt} (fits : cond.Spliceable) (pos : Pos) :
    KeepsPlain (attachCase cond pos) := by
  -- The first block of the case is one more block of the switch.
  unfold attachCase
  split
  · exact fail_plain _
  · refine .read fun state plain => ?_
    have frames := plain.frames
    split
    · rename_i switch oneLine rest same
      rw [same] at frames
      have first := fits cond.first (List.mem_cons_self ..)
      exact .bind (setFrames_plain ⟨frames.1.addBlock first, frames.2⟩) fun _ => cascade_plain pos
    · exact fail_plain _

/-- The last block of a conditional is closed. -/
theorem closeConditional_plain {cond : Conditional Stmt} {oneLine : Bool} {outer : List Frame}
    (fits : cond.Spliceable) (around : Frame.AllSpliceable outer) (pos : Pos) :
    KeepsPlain (closeConditional cond oneLine outer pos) := by
  -- By the form of the conditional, which waits, is finished, or goes to its switch.
  refine .read fun state plain => ?_
  have closed : (cond.modifyCurrent fun block => { block with isOpen := false }).Spliceable :=
    fits.modifyCurrent fun _ => id
  have queue := plain.queue
  simp only
  split
  · exact setFrames_plain ⟨closed, around⟩
  · rename_i test _ rest _ same
    rw [same] at queue
    refine (setQueue_plain (List.forall_mem_cons.1 queue).2).bind fun _ => ?_
    -- The trailing test changes no statement.
    refine (setFrames_plain around).bind fun _ => finishConditional_plain ?_ pos
    exact closed
  · exact fail_plain _
  · exact (setFrames_plain around).bind fun _ => attachCase_plain closed pos
  · exact (setFrames_plain around).bind fun _ => attachCase_plain closed pos
  · exact (setFrames_plain around).bind fun _ => finishConditional_plain closed pos

/-- The innermost block is closed. -/
theorem close_plain (pos : Pos) : KeepsPlain (close pos) := by
  -- By the innermost container: none, a function, or a conditional.
  refine .read fun state plain => ?_
  have frames := plain.frames
  split
  · split
    · exact fail_plain _
    · exact .bind (.modify fun _ plain => ⟨plain.queue, plain.frames, plain.table⟩) fun _ =>
        popScope_plain.bind fun _ => emit_plain (.item _)
  · rename_i func depth outer same
    rw [same] at frames
    -- Nothing is around a function, so it is not put into a container.
    obtain ⟨fits, rfl⟩ := frames
    refine popScope_plain.bind fun _ => ?_
    split
    · exact .bind (setFrames_plain ⟨fits, rfl⟩) fun _ => emit_plain (.item _)
    · exact finishFunction_plain fits pos
  · rename_i cond oneLine outer same
    rw [same] at frames
    refine popScope_plain.bind fun _ => ?_
    simp only
    split
    · exact .bind (setFrames_plain ⟨frames.1, frames.2⟩) fun _ => emit_plain (.item _)
    · refine closeConditional_plain ?_ frames.2 pos
      exact frames.1

/-- A variable is declared. -/
theorem declareVariable_plain (var : Variable) : KeepsPlain (declareVariable var) := by
  -- The name is claimed, defined as a variable and put among the statements.
  refine .read fun state _ => ?_
  exact (claimIn_plain _ _ _).bind fun _ => .bind (define_plain nofun) fun _ => emit_plain (.item _)

/-- A variable is declared, with its initializer or without. -/
theorem addVariable_plain (var : Variable) : KeepsPlain (addVariable var) := by
  -- An initializer that is taken along leaves the queue shorter.
  refine .read fun state plain => ?_
  split
  · rename_i init rest same
    have queue := plain.queue
    rw [same] at queue
    refine (setQueue_plain (List.forall_mem_cons.1 queue).2).bind fun _ => ?_
    exact declareVariable_plain _
  · exact declareVariable_plain _

/-- A statement without a subroutine is read. -/
theorem step_plain {stmt : Stmt} (fits : stmt.Spliceable) : KeepsPlain (step stmt) := by
  -- One case for each kind of item that nesting looks at; all others are passed on.
  unfold step
  split
  · exact openFunction_plain _
  · exact openClause_plain _
  · exact openBare_plain _
  · exact close_plain _
  · exact addVariable_plain _
  · exact fail_plain _
  · exact (claimGlobal_guarded _ _).bind fun _ => .bind (define_plain nofun) fun _ =>
      emit_plain (.item _)
  · exact define_plain nofun
  · refine .read fun state _ => ?_
    split
    · exact fail_plain _
    · split
      · exact fail_plain _
      · exact emit_plain (.item _)
  · exact .read fun _ _ => emit_plain (.item _)
  · exact .read fun _ _ => emit_plain (.item _)
  · exact checkClosed_plain.bind fun _ => emit_plain (.item _)
  all_goals exact emit_plain fits

/-- All statements are read, with or without success. -/
theorem run_plain {state : Nesting} (plain : state.Plain) :
    match run state with
    | .ok _ later | .error _ later => later.Plain := by
  -- The next statement is taken off the queue before it is read.
  fun_induction run state with
  | case1 state _ later ran => exact checkClosed_plain.kept plain ran
  | case2 state _ e later ran => exact (checkClosed_plain.fails plain ran).1
  | case3 state stmt rest queued later ran _ ih =>
    obtain ⟨fits, others⟩ := List.forall_mem_cons.1 (queued ▸ plain.queue)
    have before : Plain { state with queue := rest } := ⟨others, plain.frames, plain.table⟩
    exact ih ((step_plain fits).kept before ran)
  | case4 state stmt rest queued e later ran =>
    obtain ⟨fits, others⟩ := List.forall_mem_cons.1 (queued ▸ plain.queue)
    have before : Plain { state with queue := rest } := ⟨others, plain.frames, plain.table⟩
    exact ((step_plain fits).fails before ran).1

end Nesting

/-- Nesting leaves no subroutine in an inline function, whether it succeeds or not. -/
theorem nest_spliceable {stmts : List Stmt} (fits : ∀ s ∈ stmts, s.Spliceable) :
    Guarded (fun session => session.scopes.Spliceable) (fun _ => True) (nest stmts) := by
  -- Nesting starts with nothing open, and reading keeps the state plain.
  intro session spliceable
  have plain : Nesting.Plain { session, queue := stmts } := ⟨fits, trivial, spliceable⟩
  have after := Nesting.run_plain plain
  unfold nest
  cases ran : Nesting.run { session, queue := stmts } with
  | ok nested state =>
    rw [ran] at after
    exact after.table
  | error e state =>
    rw [ran] at after
    exact ⟨after.table, trivial⟩

end CrossAsm
