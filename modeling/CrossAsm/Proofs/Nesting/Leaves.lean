import CrossAsm.Proofs.Nesting.Transitions

/-! Nesting keeps the statements of the source: read from first to last, the trees that it makes
hold the leaves of the statements that it reads, each once and in their order. -/

namespace CrossAsm

namespace Item

/-- Whether an item only marks an end of a block. -/
def isMark : Item → Bool
  | .scopeBegin _ | .scopeEnd _ => true
  | _ => false

/-- Whether an item stands for itself: it is neither a mark, nor the head of a function or a block,
nor a type. -/
def isLeaf : Item → Bool
  | .scopeBegin _ | .scopeEnd _ | .functionDecl _ | .clause _ | .typeDecl _ => false
  | _ => true

/-- An item without what nesting notes in it: the namespace that it stands in, and whether the
function around it is an interrupt handler. -/
def unplaced : Item → Item
  | .var v => .var { v with ns := .global }
  | .call c => .call { c with ns := .global }
  | .instruction line => .instruction { line with ns := .global }
  | .ret r => .ret { r with interrupt := false }
  | item => item

end Item

namespace Stmt

mutual

/-- The leaves of a tree from first to last: all its flat items but for the marks of blocks. -/
def leaves : Stmt → List Item
  | .item i => if i.isMark then [] else [i.unplaced]
  | .function ⟨_, body, _⟩ => leavesAll body
  | .conditional ⟨_, first, others, _, _, _⟩ => leavesOf first ++ leavesEach others

/-- The leaves of a block. -/
def leavesOf : Block Stmt → List Item
  | ⟨_, body, _⟩ => leavesAll body

/-- The leaves of blocks. -/
def leavesEach : List (Block Stmt) → List Item
  | [] => []
  | block :: others => leavesOf block ++ leavesEach others

/-- The leaves of trees. -/
def leavesAll : List Stmt → List Item
  | [] => []
  | stmt :: others => leaves stmt ++ leavesAll others

end

/-- The leaves of statements as they are written: a variable has the initializer right behind it,
and an initializer behind anything else is a leaf of its own. -/
def source : List Stmt → List Item
  | .item (.var v) :: .item (.initializer init) :: rest =>
    (Item.var { v with init := some init }).unplaced :: source rest
  | .item i :: rest => if i.isLeaf then i.unplaced :: source rest else source rest
  | tree :: rest => tree.leaves ++ source rest
  | [] => []

/-- Trees behind trees. -/
@[simp]
theorem leavesAll_append (first second : List Stmt) :
    leavesAll (first ++ second) = leavesAll first ++ leavesAll second := by
  -- By induction on the first trees.
  induction first with
  | nil => rfl
  | cons stmt _ ih => simp [leavesAll, ih]

/-- Blocks behind blocks. -/
@[simp]
theorem leavesEach_append (first second : List (Block Stmt)) :
    leavesEach (first ++ second) = leavesEach first ++ leavesEach second := by
  -- By induction on the first blocks.
  induction first with
  | nil => rfl
  | cons block _ ih => simp [leavesEach, ih]

/-- Only a variable looks at what is behind it. -/
theorem source_item {i : Item} (other : ∀ v, i ≠ .var v) (rest : List Stmt) :
    source (.item i :: rest) = (if i.isLeaf then [i.unplaced] else []) ++ source rest := by
  -- The equation for variables is the only other one.
  rw [source]
  · split <;> rfl
  · exact fun v _ _ _ here => absurd here (other v)

/-- An item that is no leaf. -/
theorem source_skip {i : Item} (skipped : i.isLeaf = false) (rest : List Stmt) :
    source (.item i :: rest) = source rest := by
  -- An item that is no leaf is no variable either.
  have other : ∀ v, i ≠ .var v := by
    rintro v rfl
    cases skipped
  simp [source_item other, skipped]

/-- A variable without an initializer. -/
theorem source_var (v : Variable) {rest : List Stmt} (alone : Nesting.startsFilling rest = false) :
    source (.item (.var v) :: rest) = (Item.var v).unplaced :: source rest := by
  -- The statement behind the variable is no initializer of it.
  rw [source]
  · rfl
  · rintro _ init others rfl -
    cases alone

/-- A tree. -/
theorem source_tree {stmt : Stmt} (tree : ∀ i, stmt ≠ .item i) (rest : List Stmt) :
    source (stmt :: rest) = stmt.leaves ++ source rest := by
  -- Of the trees each has an equation of its own.
  cases stmt with
  | item i => exact (tree i rfl).elim
  | function | conditional => simp only [source]

end Stmt

open Stmt (leavesAll leavesEach leavesOf source source_item source_skip source_var source_tree)

namespace Conditional

variable {cond : Conditional Stmt}

/-- The leaves of a conditional. -/
def leaves (cond : Conditional Stmt) : List Item :=
  leavesEach cond.blocks

/-- What comes to the block being read comes behind all else. -/
theorem leaves_modifyCurrent {f : Block Stmt → Block Stmt} {more : List Item}
    (behind : ∀ block, leavesOf (f block) = leavesOf block ++ more) :
    (cond.modifyCurrent f).leaves = cond.leaves ++ more := by
  -- The block being read is the last one.
  unfold leaves modifyCurrent blocks
  split
  · rename_i none
    rw [List.getLast?_eq_none_iff] at none
    simp [leavesEach, none, behind]
  · rename_i last found
    obtain ⟨front, whole⟩ := List.getLast?_eq_some_iff.1 found
    simp [leavesEach, whole, behind]

/-- A block that is added comes behind all others. -/
theorem leaves_addBlock (block : Block Stmt) :
    (Nesting.addBlock cond block).leaves = cond.leaves ++ leavesOf block := by
  -- It is the last one in the list of blocks.
  simp [leaves, Nesting.addBlock, blocks, leavesEach]

/-- Whether a block is open is no leaf. -/
theorem leaves_marked (depth : Nat) (isOpen : Bool) :
    ({ cond with depth }.modifyCurrent fun block => { block with isOpen }).leaves =
      cond.leaves := by
  -- The mark changes no body.
  have same : ∀ block : Block Stmt, leavesOf { block with isOpen } = leavesOf block ++ [] := by
    intro block
    rw [List.append_nil]
    cases block
    rfl
  rw [leaves_modifyCurrent same, List.append_nil]
  rfl

@[simp]
theorem leaves_opened : (Nesting.opened cond).leaves = cond.leaves :=
  leaves_marked 1 true

@[simp]
theorem leaves_closed : (Nesting.closed cond).leaves = cond.leaves :=
  leaves_marked 0 false

/-- The leaves of a conditional as a tree. -/
@[simp]
theorem leaves_conditional : (Stmt.conditional cond).leaves = cond.leaves := by
  -- Either way they are those of its blocks.
  cases cond
  simp [Stmt.leaves, leaves, blocks, leavesEach]

end Conditional

/-! ### Containers -/

namespace Frame

/-- The leaves of a container in the making. -/
def leaves : Frame → List Item
  | .function func _ => leavesAll func.body
  | .conditional cond _ => cond.leaves

/-- The leaves of containers, the outermost first. -/
def leavesEach : List Frame → List Item
  | [] => []
  | frame :: outer => leavesEach outer ++ frame.leaves

variable {frame : Frame}

@[simp]
theorem leaves_withDepth (depth : Nat) : (frame.withDepth depth).leaves = frame.leaves := by
  cases frame <;> rfl

@[simp]
theorem leaves_rested : frame.rested.leaves = frame.leaves := by
  cases frame <;> rfl

/-- What is added to a container comes behind all that is in it. -/
@[simp]
theorem leaves_add (stmt : Stmt) : (frame.add [stmt]).leaves = frame.leaves ++ stmt.leaves := by
  -- The last body of the container is the one that grows.
  cases frame with
  | function => simp [add, leaves, leavesAll]
  | conditional cond =>
    refine Conditional.leaves_modifyCurrent fun block => ?_
    obtain ⟨clause, body, isOpen⟩ := block
    simp [leavesOf, leavesAll]

end Frame

namespace Nesting

variable {s s' : Nesting}

/-- The leaves that were read so far. -/
def gathered (s : Nesting) : List Item :=
  leavesAll s.output ++ Frame.leavesEach s.frames

/-- What is added comes behind all that was read. -/
theorem Adds.gathered {stmt : Stmt} (added : Adds stmt s s') :
    s'.gathered = s.gathered ++ stmt.leaves ∧ s'.queue = s.queue := by
  -- It is the last statement of the innermost container, or of the list outside of all.
  cases added with
  | inside frames => simp [Nesting.gathered, frames, Frame.leavesEach]
  | outside frames => simp [Nesting.gathered, frames, Frame.leavesEach, leavesAll]

/-- A mark that is put back is no leaf. -/
theorem cascaded_gathered (s : Nesting) (pos : Pos) :
    (s.cascaded pos).gathered = s.gathered ∧ source (s.cascaded pos).queue = source s.queue := by
  -- Nothing is put back, or a mark, which is no leaf.
  unfold cascaded
  split
  · exact ⟨rfl, rfl⟩
  · rename_i frame outer frames
    refine ⟨by simp [gathered, frames, Frame.leavesEach], ?_⟩
    unfold Frame.marks
    split
    · exact source_skip rfl _
    · rfl

/-- The mark that ends the block of a clause comes behind a statement with its initializer. -/
theorem openQueue_source {pos : Pos} {queue queue' : List Stmt} {child : Bool}
    (follows : openQueue pos queue = some (queue', child)) : source queue' = source queue := by
  -- By what stands behind the clause; a mark comes in front of it or behind.
  have mark : ∀ rest, source (.item (.scopeEnd pos) :: rest) = source rest := source_skip rfl
  unfold openQueue at follows
  split at follows
  · -- A brace is no leaf.
    cases follows
    exact (source_skip rfl _).symm
  · -- A clause starts a conditional of its own.
    split at follows
    · cases follows
    · cases follows
      rfl
  · -- The mark comes behind the initializer.
    cases follows
    simp only [source, Item.isLeaf, Bool.false_eq_true, if_false]
  · -- The mark comes behind the one statement.
    rename_i stmt rest _ _ unfilled
    split at follows
    · rename_i alone
      cases follows
      cases stmt with
      | function | conditional => cases alone
      | item item =>
        cases item with
        | var v =>
          -- The mark does not come between a variable and its initializer.
          have bare : startsFilling rest = false := by
            unfold startsFilling
            split
            · rename_i init others
              exact (unfilled v init others rfl rfl).elim
            · rfl
          rw [source_var v rfl, source_var v bare, mark]
        | _ => simp only [source_item, ne_eq, reduceCtorEq, not_false_eq_true, implies_true, mark]
    · cases follows
  · cases follows

/-- An item that is passed on is the leaf that was read, but for what is noted in it. -/
theorem Carries.source {item item' : Item} {queue queue' : List Stmt}
    (carried : Carries item queue item' queue') (kept : item.isRead = false) :
    source (.item item :: queue) = (Stmt.item item').leaves ++ source queue' := by
  -- By what is noted in the item; a variable takes the initializer behind it along.
  cases carried with
  | filled => simp [Stmt.source, Stmt.leaves, Item.isMark, Item.unplaced]
  | unfilled var ns alone =>
    simp [source_var var alone, Stmt.leaves, Item.isMark, Item.unplaced]
  | call | instruction | ret =>
    simp [Stmt.source, Item.isLeaf, Stmt.leaves, Item.isMark, Item.unplaced]
  | same other =>
    rw [source_item other]
    cases item with
    | functionDecl | clause | initializer | typeDecl => cases kept
    | _ => simp [Item.isLeaf, Stmt.leaves, Item.isMark]

/-- The clause that opens a block is no leaf. -/
theorem Starts.leaves {ns : Namespace} {clause : Clause} {frames outer : List Frame}
    {cond : Conditional Stmt} {oneLine : Bool}
    (starts : Starts ns clause frames cond oneLine outer) :
    Frame.leavesEach (.conditional cond oneLine :: outer) = Frame.leavesEach frames := by
  -- By the way the clause starts; the new block is empty.
  have fresh : ∀ frames, Frame.leavesEach (.conditional (.ofClause clause ns) false :: frames) =
      Frame.leavesEach frames := fun _ => List.append_nil _
  cases starts with
  | fresh => exact fresh _
  | otherwise =>
    simp only [Frame.leavesEach, Frame.leaves, Conditional.leaves_addBlock]
    exact congrArg _ (List.append_nil _)
  | case => exact fresh _
  | default => exact fresh _

/-- The test behind a loop is no leaf. -/
theorem Ends.leaves {cond cond' : Conditional Stmt} {queue queue' : List Stmt}
    (ends : Ends cond queue cond' queue') :
    cond'.leaves = cond.leaves ∧ source queue' = source queue := by
  -- The test is skipped in the queue, and is in no block.
  cases ends with
  | plain => exact ⟨Conditional.leaves_closed, rfl⟩
  | trailing loop => exact ⟨Conditional.leaves_closed, (source_skip rfl _).symm⟩

/-- The leaves of what a transition has read, and of what it leaves to be read. -/
theorem Transition.gathered {stmt : Stmt} (moves : Transition s stmt s') :
    s'.gathered ++ source s'.queue = s.gathered ++ source (stmt :: s.queue) := by
  -- By cases on the transition: a leaf goes from the queue to what is gathered, in order.
  cases moves with
  | types decl =>
    -- Declarations of types are no leaves.
    rw [source_skip rfl]
    rfl
  | passes before after notes read added carried =>
    -- What is passed on is a leaf, or is none on both sides.
    obtain ⟨behind, queue⟩ := added.gathered
    rw [behind, queue, carried.source before]
    simp [Nesting.gathered, reading]
  | tree tree added =>
    obtain ⟨behind, queue⟩ := added.gathered
    rw [behind, queue, List.append_assoc, source_tree tree]
  | function frames bare next =>
    -- Functions and blocks that are opened have no leaves yet.
    rw [source_skip rfl, next, source_skip rfl]
    simp [Nesting.gathered, reading, frames, Frame.leavesEach, Frame.leaves, leavesAll]
  | @block clause cond oneLine child outer queue pos starts follows =>
    have same := starts.leaves
    simp only [Frame.leavesEach, Frame.leaves] at same
    rw [source_skip rfl]
    simp [Nesting.gathered, reading, Frame.leavesEach, Frame.leaves, same,
      openQueue_source follows]
  | deepens frames takes =>
    -- Braces are no leaves.
    rw [source_skip rfl]
    simp [Nesting.gathered, reading, frames, Frame.leavesEach, Stmt.leaves, Item.isMark]
  | opensBare frames =>
    rw [source_skip rfl]
    simp [Nesting.gathered, reading, leavesAll, Stmt.leaves, Item.isMark]
  | closesBare frames bare popped =>
    rw [source_skip rfl]
    simp [Nesting.gathered, reading, leavesAll, Stmt.leaves, Item.isMark]
  | rises frames takes deep popped =>
    rw [source_skip rfl]
    simp [Nesting.gathered, reading, frames, Frame.leavesEach, Stmt.leaves, Item.isMark]
  | @endsFunction pos func depth outer ns table s' frames last popped added =>
    -- The function stands where its container stood.
    obtain ⟨behind, queue⟩ := added.gathered
    obtain ⟨behind', queue'⟩ := cascaded_gathered s' pos
    have body : (Stmt.function func).leaves = leavesAll func.body := by
      simp [Stmt.leaves]
    rw [behind', queue', behind, queue, body, source_skip rfl]
    simp [Nesting.gathered, reading, frames, Frame.leavesEach, Frame.leaves]
  | waits frames last popped form next =>
    -- Waiting changes no block.
    rw [source_skip rfl]
    simp [Nesting.gathered, reading, frames, Frame.leavesEach, Frame.leaves]
  | @endsConditional pos cond cond' oneLine outer ns table left s' frames last popped ends added =>
    -- So does the conditional, and the test behind it is read along.
    obtain ⟨behind, queue⟩ := added.gathered
    obtain ⟨behind', queue'⟩ := cascaded_gathered s' pos
    obtain ⟨same, rest⟩ := ends.leaves
    rw [behind', queue', behind, queue, source_skip rfl]
    simp [Nesting.gathered, reading, frames, Frame.leavesEach, Frame.leaves, same, rest]
  | @endsArm pos cond switch oneLine waiting outer ns table frames last popped form single =>
    -- The one block of a case goes behind those of its switch.
    have block : leavesOf (closed cond).first = cond.leaves := by
      have alone : (closed cond).blocks = [(closed cond).first] := by
        simp [closed, Conditional.modifyCurrent, Conditional.blocks, single]
      rw [← Conditional.leaves_closed, Conditional.leaves, alone]
      simp [leavesEach]
    obtain ⟨behind', queue'⟩ := cascaded_gathered (s.reading table s.queue
      (.conditional (addBlock switch (closed cond).first) waiting :: outer)) pos
    rw [behind', queue', source_skip rfl]
    simp [Nesting.gathered, reading, frames, Frame.leavesEach, Frame.leaves,
      Conditional.leaves_addBlock, block]

/-- At all times the leaves read and those to be read are the ones of the source. -/
theorem Visits.gathered (visits : s.Visits s') :
    s'.gathered ++ source s'.queue = s.gathered ++ source s.queue := by
  -- By induction on the statements that are read.
  induction visits with
  | refl => rfl
  | tail _ advances ih =>
    obtain ⟨queued, ran⟩ := advances
    rw [Transition.gathered (step_leads _ ran), ← ih, queued]
    rfl

end Nesting

/-- Nesting neither loses nor repeats a statement, and keeps their order: the trees hold the leaves
of the source from first to last, each as it was written but for what nesting notes in it. -/
theorem nest_keeps_leaves {stmts nested : List Stmt} {session session' : Session}
    (ran : nest stmts session = .ok nested session') : leavesAll nested = source stmts := by
  unfold nest at ran
  cases finished : Nesting.run { session, queue := stmts } with
  | error => simp [finished] at ran
  | ok output state =>
    obtain ⟨visits, queue, frames, -, rfl⟩ := Nesting.run_eq_ok finished
    simp only [finished, EStateM.Result.ok.injEq] at ran
    obtain ⟨rfl, rfl⟩ := ran
    -- At the start nothing was read; at the end nothing is open, and nothing is left.
    have kept := visits.gathered
    simpa [Nesting.gathered, frames, queue, Frame.leavesEach, leavesAll, source] using kept

/-- An interrupt handler in which a variable with an initializer and an inner switch are branches
without braces. -/
def scattered : List Stmt :=
  let clause (kind : ClauseKind) : Item := .clause ⟨kind, default⟩
  let instruction (op : Op) : Item := .instruction (.unresolved op .none .global default)
  [.fileBegin "main",
    .functionDecl ⟨"main", .interrupt none, false, [], default⟩, .scopeBegin default,
    clause (.ifTest ⟨.near, .is, .zero⟩),
    .var ⟨"byte", "count", false, .unsized, none, none, .global, none, default⟩,
    .initializer ⟨.values [.number 1, .number 2], default⟩,
    clause .otherwise, clause (.switchOn .a), .scopeBegin default,
    clause (.caseOf (.number 1)), instruction .inx,
    clause .byDefault, .call ⟨"helper", [], .global, [], default⟩, .scopeEnd default,
    clause .doBlock, .label ⟨"again", default⟩, clause (.whileTest ⟨.near, .is, .carry⟩),
    .ret ⟨false, default⟩, .scopeEnd default, .fileEnd "main"].map .item

/-- Their leaves stay in order, the variable with its values. -/
theorem scattered_kept :
    ∃ nested later, nest scattered { cpu := .nmos } = .ok nested later ∧
      leavesAll nested =
        [.fileBegin "main",
          .var ⟨"byte", "count", false, .unsized, none,
            some ⟨.values [.number 1, .number 2], default⟩, .global, none, default⟩,
          .instruction (.unresolved .inx .none .global default),
          .call ⟨"helper", [], .global, [], default⟩, .label ⟨"again", default⟩,
          .ret ⟨false, default⟩, .fileEnd "main"] := by
  -- The nesting is evaluated as far as that it succeeds.
  have evaluated : succeedsWith (fun _ _ => true) (nest scattered { cpu := .nmos }) = true := by
    decide +kernel
  obtain ⟨nested, later, ran, -⟩ := exists_of_succeedsWith evaluated
  exact ⟨nested, later, ran, nest_keeps_leaves ran⟩

end CrossAsm
