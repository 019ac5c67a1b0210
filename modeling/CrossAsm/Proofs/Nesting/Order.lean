import CrossAsm.Proofs.Nesting.WellNested

/-! Nesting keeps the order of the source: read from the outside in and from first to last, the trees
that it makes have the clauses of the statements that it reads. -/

namespace CrossAsm

/-- A clause with its place, but for a `while`: as the test behind a block it has none. -/
def Clause.placed (clause : Clause) : Clause :=
  match clause.kind with
  | .whileTest _ => { clause with pos := {} }
  | _ => clause

namespace Stmt

mutual

/-- The clauses of a statement in the order of the source. -/
def clauses : Stmt → List Clause
  | .item (.clause clause) => [clause.placed]
  | .item _ => []
  | .function ⟨_, body, _⟩ => clausesAll body
  | .conditional ⟨_, first, others, _, post, _⟩ =>
    clausesOf first ++ clausesEach others ++ post.toList.map fun test => ⟨.whileTest test, {}⟩

/-- The clauses of a block, its own first. -/
def clausesOf : Block Stmt → List Clause
  | ⟨clause, body, _⟩ => clause.placed :: clausesAll body

/-- The clauses of blocks. -/
def clausesEach : List (Block Stmt) → List Clause
  | [] => []
  | block :: others => clausesOf block ++ clausesEach others

/-- The clauses of statements. -/
def clausesAll : List Stmt → List Clause
  | [] => []
  | stmt :: others => clauses stmt ++ clausesAll others

end

/-- Statements behind statements. -/
@[simp]
theorem clausesAll_append (first second : List Stmt) :
    clausesAll (first ++ second) = clausesAll first ++ clausesAll second := by
  -- By induction on the first statements.
  induction first with
  | nil => rfl
  | cons stmt _ ih => simp [clausesAll, ih]

/-- Blocks behind blocks. -/
@[simp]
theorem clausesEach_append (first second : List (Block Stmt)) :
    clausesEach (first ++ second) = clausesEach first ++ clausesEach second := by
  -- By induction on the first blocks.
  induction first with
  | nil => rfl
  | cons block _ ih => simp [clausesEach, ih]

/-- Only a clause among flat items has one. -/
theorem clauses_item {item : Item} (kept : item.isRead = false) : clauses (.item item) = [] := by
  -- A clause is read by nesting, which `item` is not.
  cases item with
  | clause => cases kept
  | _ => rfl

end Stmt

open Stmt (clausesAll clausesEach clausesOf)

namespace Conditional

variable {cond : Conditional Stmt}

/-- The clauses of a conditional in the order of the source. -/
def clauses (cond : Conditional Stmt) : List Clause :=
  (Stmt.conditional cond).clauses

/-- Without a trailing test, the clauses of a conditional are those of its blocks. -/
theorem clauses_eq (post : cond.post = none) : cond.clauses = clausesEach cond.blocks := by
  -- The test would come behind the blocks.
  obtain ⟨form, first, others, depth, _, ns⟩ := cond
  obtain rfl : _ = none := post
  simp [clauses, Stmt.clauses, blocks, clausesEach]

/-- What comes to the block being read comes behind all else. -/
theorem clauses_modifyCurrent (post : cond.post = none) {f : Block Stmt → Block Stmt}
    {more : List Clause} (same : ∀ block, clausesOf (f block) = clausesOf block ++ more) :
    (cond.modifyCurrent f).clauses = cond.clauses ++ more := by
  -- Without a test behind it, a conditional ends with the block being read.
  rw [clauses_eq post, clauses_eq (by rw [modifyCurrent_post, post])]
  -- The block being read is the last one.
  unfold modifyCurrent blocks
  split
  · rename_i none
    rw [List.getLast?_eq_none_iff] at none
    simp [clausesEach, none, same]
  · rename_i last found
    obtain ⟨front, whole⟩ := List.getLast?_eq_some_iff.1 found
    simp [clausesEach, whole, same]

/-- A block that is added comes behind all others. -/
theorem clauses_addBlock (post : cond.post = none) (block : Block Stmt) :
    (Nesting.addBlock cond block).clauses = cond.clauses ++ clausesOf block := by
  -- Adding a block leaves what stands behind the loop.
  have post' : (Nesting.addBlock cond block).post = none := post
  rw [clauses_eq post, clauses_eq post']
  simp [Nesting.addBlock, blocks, clausesEach]

/-- The marks of blocks are no clauses. -/
theorem clauses_marked (post : cond.post = none) (depth : Nat) (isOpen : Bool) :
    ({ cond with depth }.modifyCurrent fun block => { block with isOpen }).clauses =
      cond.clauses := by
  -- The mark changes no clause and no body.
  have post : Conditional.post { cond with depth } = none := post
  have kept : ∀ block : Block Stmt, clausesOf { block with isOpen } = clausesOf block ++ [] := by
    intro block
    rw [List.append_nil]
    cases block
    rfl
  rw [clauses_modifyCurrent post kept, List.append_nil]
  rfl

end Conditional

/-! ### Containers -/

namespace Frame

/-- The clauses of a container in the making. -/
def clauses : Frame → List Clause
  | .function func _ => clausesAll func.body
  | .conditional cond _ => cond.clauses

/-- The clauses of containers, the outermost first. -/
def clausesEach : List Frame → List Clause
  | [] => []
  | frame :: outer => clausesEach outer ++ frame.clauses

variable {frame : Frame} {outer : List Frame}

@[simp]
theorem clauses_withDepth (depth : Nat) : (frame.withDepth depth).clauses = frame.clauses := by
  cases frame <;> rfl

@[simp]
theorem clauses_rested : frame.rested.clauses = frame.clauses := by
  cases frame <;> rfl

/-- What is added to a container comes behind all that is in it. -/
theorem clauses_add (fit : AllFit none (frame :: outer)) (stmt : Stmt) :
    (frame.add [stmt]).clauses = frame.clauses ++ stmt.clauses := by
  -- The last body of the container is the one that grows.
  cases frame with
  | function => simp [add, clauses, clausesAll]
  | conditional cond =>
    refine Conditional.clauses_modifyCurrent fit.1.filling.post fun block => ?_
    obtain ⟨clause, body, isOpen⟩ := block
    simp [clausesOf, clausesAll]

end Frame

namespace Nesting

variable {s s' : Nesting}

/-- The clauses that were read so far. -/
def told (s : Nesting) : List Clause :=
  clausesAll s.output ++ Frame.clausesEach s.frames

/-- What is added comes behind all that was read. -/
theorem Adds.told {stmt : Stmt} (added : Adds stmt s s') (fit : Frame.AllFit none s.frames) :
    s'.told = s.told ++ stmt.clauses ∧ s'.queue = s.queue := by
  -- The statement comes to the container or to the output, behind all else.
  cases added with
  | inside frames =>
    rw [frames] at fit
    simp [Nesting.told, frames, Frame.clausesEach, Frame.clauses_add fit]
  | outside frames => simp [Nesting.told, frames, Frame.clausesEach, clausesAll]

/-- A mark that is put back is no clause. -/
theorem cascaded_told (s : Nesting) (pos : Pos) :
    (s.cascaded pos).told = s.told ∧ clausesAll (s.cascaded pos).queue = clausesAll s.queue := by
  -- Nothing is put back, or a mark, which is no clause.
  unfold cascaded
  split
  · exact ⟨rfl, rfl⟩
  · rename_i frame outer frames
    refine ⟨by simp [told, frames, Frame.clausesEach], ?_⟩
    unfold Frame.marks
    split
    · rfl
    · rfl

/-- The marks of a block are no clauses. -/
theorem openQueue_clauses {pos : Pos} {queue queue' : List Stmt} {child : Bool}
    (follows : openQueue pos queue = some (queue', child)) :
    clausesAll queue' = clausesAll queue := by
  -- By what stands behind the clause; only a mark is added.
  unfold openQueue at follows
  split at follows
  · cases follows
    rfl
  · split at follows
    · cases follows
    · cases follows
      rfl
  · cases follows
    rfl
  · split at follows
    · cases follows
      rfl
    · cases follows
  · cases follows

/-- The clause that opens a block comes behind all that is in its conditional, or around it. -/
theorem Starts.told {ns : Namespace} {clause : Clause} {frames outer : List Frame}
    {cond : Conditional Stmt} {oneLine : Bool}
    (starts : Starts ns clause frames cond oneLine outer) (fit : Frame.AllFit none frames) :
    Frame.clausesEach (.conditional cond oneLine :: outer) =
      Frame.clausesEach frames ++ [clause.placed] := by
  -- By the way the clause starts.
  have own : (Conditional.ofClause clause ns : Conditional Stmt).clauses = [clause.placed] := rfl
  cases starts with
  | fresh => rw [Frame.clausesEach, Frame.clauses, own]
  | @otherwise cond oneLine outer =>
    -- The `else` is the last block of the conditional that waited for it.
    have post : Conditional.post { cond with form := .ifElse } = none := fit.1.filling.post
    have same : Conditional.clauses { cond with form := .ifElse } = cond.clauses := rfl
    rw [Frame.clausesEach, Frame.clauses, Conditional.clauses_addBlock post, same]
    simp [Frame.clausesEach, Frame.clauses, clausesOf, clausesAll]
  | case => rw [Frame.clausesEach, Frame.clauses, own]
  | default =>
    rw [Frame.clausesEach, Frame.clauses, own]
    rfl

/-- A conditional that is finished has the test behind it for its last clause. -/
theorem Ends.told {cond cond' : Conditional Stmt} {queue queue' : List Stmt}
    (ends : Ends cond queue cond' queue') (post : cond.post = none) :
    cond'.clauses ++ clausesAll queue' = cond.clauses ++ clausesAll queue := by
  -- The test is the last clause of the loop, and was the first one to be read.
  have same : (closed cond).clauses = cond.clauses := Conditional.clauses_marked post 0 false
  cases ends with
  | plain => rw [same]
  | @trailing test pos rest loop =>
    have none : (closed cond).post = none := by simp [closed, post]
    have behind : Conditional.clauses { closed cond with post := some test } =
        (closed cond).clauses ++ [⟨.whileTest test, {}⟩] := by
      simp [Conditional.clauses, Stmt.clauses, none]
    rw [behind, same]
    simp [clausesAll, Stmt.clauses, Clause.placed]

/-- Every transition keeps the order of the clauses. -/
theorem Transition.told {item : Item} (moves : Transition s (.item item) s')
    (fit : Frame.AllFit none s.frames) :
    s'.told ++ clausesAll s'.queue =
      s.told ++ (Stmt.clauses (.item item) ++ clausesAll s.queue) := by
  -- By cases on the transition: a clause goes from the queue to what is told, in order.
  cases moves with
  | types decl => rfl
  | passes before after notes read added =>
    -- What is passed on has no clause.
    obtain ⟨told, queue⟩ := added.told fit
    rw [told, queue, Stmt.clauses_item before, Stmt.clauses_item after]
    -- An initializer that is read along is no clause.
    obtain rfl | ⟨init, same⟩ := read
    · simp [Nesting.told, reading]
    · simp [Nesting.told, reading, same, clausesAll, Stmt.clauses]
  | tree tree => exact (tree item rfl).elim
  | function frames bare next =>
    -- A function has no clause of its own.
    simp [Nesting.told, reading, frames, next, Frame.clausesEach, Frame.clauses, clausesAll,
      Stmt.clauses]
  | @block clause cond oneLine child outer queue pos starts follows =>
    -- The clause of the block is told with it.
    have same : (opened cond).clauses = cond.clauses :=
      Conditional.clauses_marked (starts.allFit fit).1.filling.post 1 true
    have told := starts.told fit
    simp only [Frame.clausesEach, Frame.clauses] at told
    simp only [Nesting.told, reading, Frame.clausesEach, Frame.clauses, same, told,
      openQueue_clauses follows]
    simp [Stmt.clauses]
  | @deepens pos frame outer frames takes =>
    -- Braces have no clause.
    rw [frames] at fit
    have added := Frame.clauses_add (fit.withDepth (frame.depth + 1)) (.item (.scopeBegin pos))
    simp only [Nesting.told, reading, frames, Frame.clausesEach, added]
    simp [Stmt.clauses]
  | opensBare frames => simp [Nesting.told, reading, clausesAll, Stmt.clauses]
  | closesBare frames bare popped => simp [Nesting.told, reading, clausesAll, Stmt.clauses]
  | @rises pos frame outer ns table frames takes deep popped =>
    rw [frames] at fit
    have added := Frame.clauses_add (fit.withDepth (frame.depth - 1)) (.item (.scopeEnd pos))
    simp only [Nesting.told, reading, frames, Frame.clausesEach, added]
    simp [Stmt.clauses]
  | @endsFunction pos func depth outer ns table s' frames last popped added =>
    -- The clauses of the function stand where its container stood.
    rw [frames] at fit
    obtain ⟨told, queue⟩ := added.told fit.2.2
    obtain ⟨told', queue'⟩ := cascaded_told s' pos
    have body : (Stmt.function func).clauses = clausesAll func.body := by
      simp [Stmt.clauses]
    rw [told', queue', told, queue, body]
    simp [Nesting.told, reading, frames, Frame.clausesEach, Frame.clauses, Stmt.clauses]
  | @waits pos cond oneLine outer ns table frames last popped form next =>
    -- Waiting changes no clause.
    rw [frames] at fit
    have same : (closed cond).clauses = cond.clauses :=
      Conditional.clauses_marked fit.1.filling.post 0 false
    simp [Nesting.told, reading, frames, Frame.clausesEach, Frame.clauses, same, Stmt.clauses]
  | @endsConditional pos cond cond' oneLine outer ns table left s' frames last popped ends added =>
    rw [frames] at fit
    obtain ⟨told, queue⟩ := added.told (fit.2.change ends.isArm.1 rfl)
    obtain ⟨told', queue'⟩ := cascaded_told s' pos
    -- The conditional stands where its container stood, with the test behind it.
    have finished : (Stmt.conditional cond').clauses ++ clausesAll left =
        cond.clauses ++ clausesAll s.queue := ends.told fit.1.filling.post
    rw [told', queue', told, queue]
    simp only [Nesting.told, reading, frames, Frame.clausesEach, Frame.clauses, List.append_assoc,
      finished]
    simp [Stmt.clauses]
  | @endsArm pos cond switch oneLine waiting outer ns table frames last popped form single =>
    -- The block of a case goes behind those of its switch.
    rw [frames] at fit
    obtain ⟨arm, fits, around⟩ := fit
    have block : clausesOf (closed cond).first = cond.clauses := by
      -- A case has one block and no test behind it.
      have alone : (closed cond).blocks = [(closed cond).first] := by
        simp [closed, Conditional.modifyCurrent, Conditional.blocks, single]
      have post : (closed cond).post = none := by simp [closed, arm.filling.post]
      rw [← Conditional.clauses_marked arm.filling.post 0 false]
      show _ = (closed cond).clauses
      rw [Conditional.clauses_eq post, alone]
      simp [clausesEach]
    obtain ⟨told', queue'⟩ := cascaded_told (s.reading table s.queue
      (.conditional (addBlock switch (closed cond).first) waiting :: outer)) pos
    rw [told', queue']
    simp [Nesting.told, reading, frames, Frame.clausesEach, Frame.clauses,
      Conditional.clauses_addBlock fits.filling.post, block, Stmt.clauses]

/-- At all times the clauses read and those to be read are the ones of the source. -/
theorem Visits.told (visits : s.Visits s') (before : s.WellNested) :
    s'.told ++ clausesAll s'.queue = s.told ++ clausesAll s.queue := by
  -- By induction on the statements that are read, each of them from a state that is well nested.
  induction visits with
  | refl => rfl
  | @tail middle _ visits advances ih =>
    obtain ⟨queued, ran⟩ := advances
    have nested := Visits.wellNested visits before
    obtain ⟨⟨item, rfl⟩, -⟩ := List.forall_mem_cons.1 (queued ▸ nested.queue)
    have step := Transition.told (step_leads _ ran) nested.frames
    rw [step, ← ih, queued]
    rfl

end Nesting

end CrossAsm
