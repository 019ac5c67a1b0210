import CrossAsm.Proofs.Nesting.Balance

/-! The braces of a function: statements whose braces match are read inside of it, and the mark
behind them is the one that ends it. -/

namespace CrossAsm

namespace Stmt

/-- Whether a statement opens or closes a block. -/
def isBrace : Stmt → Bool
  | .item (.scopeBegin _) | .item (.scopeEnd _) => true
  | _ => false

/-- Whether the braces of statements match, if they are read inside of a number of blocks that they
close. -/
def balanced : Nat → List Stmt → Bool
  | count, [] => count == 0
  | count, .item (.scopeBegin _) :: rest => balanced (count + 1) rest
  | 0, .item (.scopeEnd _) :: _ => false
  | count + 1, .item (.scopeEnd _) :: rest => balanced count rest
  | count, _ :: rest => balanced count rest

variable {count : Nat} {stmt : Stmt} {rest : List Stmt}

/-- Only braces count. -/
theorem balanced_cons (plain : stmt.isBrace = false) :
    balanced count (stmt :: rest) = balanced count rest := by
  -- By cases on the statement, of which only the two braces are counted.
  cases stmt with
  | item i =>
    cases i with
    | scopeBegin | scopeEnd => cases plain
    | _ => rw [balanced] <;> nofun
  | function | conditional => rw [balanced] <;> nofun

/-- An end closes one of the blocks. -/
theorem balanced_scopeEnd {pos : Pos} (matched : balanced count (.item (.scopeEnd pos) :: rest)) :
    ∃ less, count = less + 1 ∧ balanced less rest = true := by
  -- Braces with an end too many are not balanced.
  cases count with
  | zero => cases matched
  | succ less => exact ⟨less, rfl, matched⟩

end Stmt

/-! ### Braces move between scopes -/

/-- The scope that is opened is another one. -/
theorem ScopeTable.push_current_ne (table : ScopeTable) (name : Option String) :
    (table.push name).current ≠ table.current := by
  -- Its path is longer by one part.
  intro same
  have longer := congrArg (fun ns : Namespace => ns.path.length) same
  cases name <;> simp [push, Namespace.child] at longer

/-- The scope around the one that is left is another one. -/
theorem ScopeTable.pop_current_ne {table later : ScopeTable} {ns : Namespace}
    (popped : table.pop = .ok (ns, later)) : later.current ≠ table.current := by
  -- The scope that is left is not the global one, and has a name more than the one around.
  intro same
  unfold pop Namespace.parent? at popped
  split at popped
  · rename_i parent found
    cases popped
    split at found
    · cases found
    · rename_i path inner
      cases found
      -- The path of the scope around is shorter.
      have shorter := congrArg (fun ns : Namespace => ns.path.length) same
      simp only [List.length_dropLast] at shorter
      exact inner (List.length_eq_zero_iff.1 (by omega))
  · cases popped

namespace Nesting

variable {s s' : Nesting} {α : Type}

/-- Steps that end in the scope they start in. -/
def StaysInScope (m : NestingStep α) : Prop :=
  ∀ s, Leads m s fun s' => s'.session.scopes.current = s.session.scopes.current

/-- Adding a statement does. -/
theorem emit_staysInScope (stmt : Stmt) : StaysInScope (emit stmt) :=
  fun _ => (emit_leads stmt).mono fun _ added => by rw [added.same.2.2]

/-- So does finishing a function whose scope is left. -/
theorem finishFunction_staysInScope (func : Function Stmt) (pos : Pos) :
    StaysInScope (finishFunction func pos) := by
  -- The function is added where it belongs, and a mark may be put back.
  refine fun s => (finishFunction_leads func pos).mono ?_
  rintro s' ⟨middle, added, rfl⟩
  rw [(cascaded_same middle pos).2.2, added.same.2.2]
  rfl

/-- So does finishing a conditional. -/
theorem finishConditional_staysInScope (cond : Conditional Stmt) (pos : Pos) :
    StaysInScope (finishConditional cond pos) := by
  -- Neither adding the conditional nor putting back a mark touches the session.
  refine fun s => (finishConditional_leads cond pos).mono ?_
  rintro s' ⟨middle, added, rfl⟩
  rw [(cascaded_same middle pos).2.2, added.same.2.2]

/-- So does handing a case to its switch. -/
theorem attachCase_staysInScope (cond : Conditional Stmt) (pos : Pos) :
    StaysInScope (attachCase cond pos) := by
  -- Only the frames are changed, and a mark is put back.
  refine fun s => (attachCase_leads cond pos).mono ?_
  rintro s' ⟨switch, oneLine, rest, -, -, rfl⟩
  rw [(cascaded_same _ pos).2.2]

/-- So does closing a conditional whose scope is left. -/
theorem closeConditional_staysInScope (cond : Conditional Stmt) (oneLine : Bool)
    (outer : List Frame) (pos : Pos) :
    StaysInScope (closeConditional cond oneLine outer pos) := by
  -- Each kind of clause ends with a step that stays in the scope, or fails.
  refine fun s => .read ?_
  simp only
  split
  · exact .modified rfl
  · exact .change (.change (finishConditional_staysInScope _ pos _))
  · exact .fail _
  · exact .change (attachCase_staysInScope _ pos _)
  · exact .change (attachCase_staysInScope _ pos _)
  · exact .change (finishConditional_staysInScope _ pos _)

/-- A block that is opened is a scope of its own. -/
theorem openBare_leaves (pos : Pos) :
    Leads (openBare pos) s fun s' => s'.session.scopes.current ≠ s.session.scopes.current := by
  -- The scope is entered behind the counting, and the brace is emitted inside of it.
  have deepens : Leads (deepen pos) s fun s' => s'.session = s.session := by
    refine .read ?_
    split <;> exact .modified rfl
  refine deepens.andThen fun _ middle same => .change ?_
  refine (emit_staysInScope _ _).mono fun s' stays => ?_
  rw [stays, ← same]
  exact ScopeTable.push_current_ne _ none

/-- With a block its scope is left. -/
theorem close_leaves (pos : Pos) :
    Leads (close pos) s fun s' => s'.session.scopes.current ≠ s.session.scopes.current := by
  -- By the innermost container; each way of going on starts by leaving the scope.
  have leaves : ∀ {s : Nesting} {k : PUnit → NestingStep Unit}, (∀ a, StaysInScope (k a)) →
      Leads (popScope >>= k) s fun s' => s'.session.scopes.current ≠ s.session.scopes.current := by
    intro s k stays
    refine popScope_leads.andThen fun a middle left => (stays a middle).mono fun s' same => ?_
    obtain ⟨ns, table, popped, rfl⟩ := left
    rw [same]
    exact ScopeTable.pop_current_ne popped
  -- Whatever is done behind it is done in the scope around.
  refine .read ?_
  split
  · split
    · exact .fail _
    · exact .change (leaves fun _ => emit_staysInScope _)
  · refine leaves fun _ => ?_
    split
    · exact fun _ => .change (emit_staysInScope _ _)
    · exact fun _ => .change (finishFunction_staysInScope _ pos _)
  · refine leaves fun _ => ?_
    simp only
    split
    · exact fun _ => .change (emit_staysInScope _ _)
    · exact closeConditional_staysInScope _ _ _ pos

/-- A statement that is read in a scope and leaves it open is no brace. -/
theorem step_isBrace {stmt : Stmt} (ran : step stmt s = .ok () s')
    (same : s'.session.scopes.current = s.session.scopes.current) : stmt.isBrace = false := by
  -- Either brace would have changed the open scope.
  cases stmt with
  | item i =>
    cases i with
    | scopeBegin pos => exact (openBare_leaves pos ran same).elim
    | scopeEnd pos => exact (close_leaves pos ran same).elim
    | _ => rfl
  | function | conditional => rfl

end Nesting

/-! ### Inside of a function -/

namespace Frame

/-- A function of the given head with conditionals in it, the innermost first. -/
def InFunction (decl : FunctionDecl) : List Frame → Prop
  | [] => False
  | .function func _ :: outer => func.decl = decl ∧ outer = []
  | .conditional .. :: outer => InFunction decl outer

variable {decl : FunctionDecl} {frame : Frame} {outer : List Frame}

/-- Whether a container waits for a mark is all that counts of the marks. -/
theorem waiting_eq (frame : Frame) : frame.waiting = frame.oneLine.toNat := by
  -- A container waits for one mark or for none.
  cases frame <;> rfl

/-- A container that has other statements is of the same kind. -/
theorem inFunction_add (stmts : List Stmt) (inside : InFunction decl (frame :: outer)) :
    InFunction decl (frame.add stmts :: outer) := by
  -- Adding keeps the declaration of a function and the kind of a conditional.
  cases frame <;> exact inside

/-- So is one with another number of open blocks. -/
theorem inFunction_withDepth (depth : Nat) (inside : InFunction decl (frame :: outer)) :
    InFunction decl (frame.withDepth depth :: outer) := by
  -- The number is no part of what makes it a function.
  cases frame <;> exact inside

/-- So is one that waits for no mark any more. -/
theorem inFunction_rested (inside : InFunction decl (frame :: outer)) :
    InFunction decl (frame.rested :: outer) := by
  -- The mark is no part of what makes it a function.
  cases frame <;> exact inside

@[simp]
theorem oneLine_withDepth (depth : Nat) : (frame.withDepth depth).oneLine = frame.oneLine := by
  cases frame <;> rfl

/-- Containers that all have an open block have more of them than marks that they wait for. -/
theorem waiting_lt_depth {frames : List Frame} (inside : InFunction decl frames)
    (allOpen : ∀ count ∈ frames.map depth, 1 ≤ count) :
    total (frames.map waiting) < total (frames.map depth) := by
  -- By induction on the containers, the outermost of which is the function and waits for none.
  induction frames with
  | nil => exact inside.elim
  | cons frame outer ih =>
    simp only [List.map_cons, List.forall_mem_cons, total_cons] at allOpen ⊢
    cases frame with
    | function func count =>
      obtain ⟨-, rfl⟩ : _ ∧ outer = [] := inside
      have here := allOpen.1
      simp only [waiting, List.map_nil, total_nil]
      omega
    | conditional cond oneLine =>
      have rest := ih inside allOpen.2
      have few : waiting (.conditional cond oneLine) ≤ 1 := Bool.toNat_le oneLine
      have here := allOpen.1
      omega

end Frame

namespace Nesting

variable {s s' : Nesting} {decl : FunctionDecl} {tail ahead : List Stmt} {count : Nat} {stmt : Stmt}

/-- Reading inside of a function up to a barrier: the statements before it close all blocks but that
of the function itself, together with the marks that containers wait for. -/
structure Enclosed (decl : FunctionDecl) (tail ahead : List Stmt) (count : Nat) (s : Nesting) :
    Prop where
  /-- The statements before the barrier. -/
  queue : s.queue = ahead ++ tail
  /-- Their braces match. -/
  balanced : Stmt.balanced count ahead = true
  /-- All containers are in the function. -/
  frames : Frame.InFunction decl s.frames
  /-- A block that is open is closed by a brace or a mark, but for that of the function. -/
  depths : count + 1 + total (s.frames.map Frame.waiting) = total s.depths

/-- The innermost container waits for a mark only if the statements ahead start the conditional that
is its block. -/
def Expects (ahead : List Stmt) (s : Nesting) : Prop :=
  ∀ frame outer, s.frames = frame :: outer → frame.oneLine = true →
    ∃ clause rest, ahead = .item (.clause clause) :: rest ∧ clause.kind ≠ .otherwise

/-- Reading inside of a function up to a barrier. -/
def Inside (decl : FunctionDecl) (tail : List Stmt) (s : Nesting) : Prop :=
  ∃ ahead count, s.Enclosed decl tail ahead count ∧ s.Expects ahead

/-- An innermost container that waits for no mark expects nothing. -/
theorem Expects.ofRested {frame : Frame} {outer : List Frame} (frames : s.frames = frame :: outer)
    (rests : frame.oneLine = false) : s.Expects ahead := by
  -- Expecting takes a container that waits.
  intro other around here waits
  cases frames.symm.trans here
  cases rests.symm.trans waits

/-- The mark that the innermost container waits for closes its block. -/
theorem Enclosed.cascaded (enclosed : s.Enclosed decl tail ahead count) (pos : Pos) :
    (s.cascaded pos).Inside decl tail := by
  -- A container that waits for its mark gets it, and the brace that it stands for counts.
  obtain ⟨queue, balanced, inside, depths⟩ := enclosed
  unfold Nesting.cascaded
  split
  · rename_i none
    rw [none] at inside
    exact inside.elim
  · rename_i frame outer frames
    rw [frames] at inside depths
    simp only [Nesting.depths, frames, List.map_cons, total_cons, Frame.waiting_eq] at depths
    have expects : ∀ ahead, Expects ahead
        { s with frames := frame.rested :: outer, queue := frame.marks pos ++ s.queue } :=
      fun _ => .ofRested rfl frame.oneLine_rested
    -- By whether the container waits.
    cases waits : frame.oneLine with
    | false =>
      refine ⟨ahead, count, ⟨?_, balanced, Frame.inFunction_rested inside, ?_⟩, expects _⟩
      · rw [frame.marks_of_oneLine waits]
        exact queue
      · rw [waits] at depths
        simpa [Nesting.depths, Frame.waiting_eq] using depths
    | true =>
      -- The mark is put in front of the statements ahead.
      refine ⟨.item (.scopeEnd pos) :: ahead, count + 1,
        ⟨?_, balanced, Frame.inFunction_rested inside, ?_⟩, expects _⟩
      · simp [Frame.marks, waits, queue]
      · rw [waits] at depths
        simp only [Nesting.depths, List.map_cons, total_cons, Frame.waiting_eq,
          Frame.oneLine_rested, Frame.depth_rested, Bool.toNat_false, Bool.toNat_true] at depths ⊢
        omega

/-- A statement is added to the innermost container. -/
theorem Adds.enclosed (added : Adds stmt s s') (enclosed : s.Enclosed decl tail ahead count) :
    s'.Enclosed decl tail ahead count := by
  -- The statement comes to a container, whose depth and mark are as before.
  obtain ⟨queue, balanced, inside, depths⟩ := enclosed
  cases added with
  | inside frames takes =>
    rw [frames] at inside depths
    refine ⟨queue, balanced, Frame.inFunction_add _ inside, ?_⟩
    simpa [Nesting.depths, frames, Frame.waiting_eq] using depths
  | outside frames =>
    rw [frames] at inside
    exact inside.elim

/-- Its innermost container expects what it did. -/
theorem Adds.expects (added : Adds stmt s s') (expects : s.Expects ahead) : s'.Expects ahead := by
  -- Adding a statement does not change whether a container waits.
  intro frame outer here waits
  cases added with
  | inside frames takes =>
    cases here
    exact expects _ _ frames (by simpa using waits)
  | outside => exact expects frame outer here waits

/-- A clause opens a block in the function, and none but an `else` in a container that had none
open. -/
theorem Starts.inFunction {ns : Namespace} {clause : Clause} {frames outer : List Frame}
    {cond : Conditional Stmt} {oneLine : Bool}
    (starts : Starts ns clause frames cond oneLine outer) (inside : Frame.InFunction decl frames)
    (rests : clause.kind = .otherwise → ∀ frame outer, frames = frame :: outer →
      frame.oneLine = false) :
    oneLine = false ∧ Frame.InFunction decl outer ∧
      total (outer.map Frame.waiting) = total (frames.map Frame.waiting) ∧
      total (outer.map Frame.depth) = total (frames.map Frame.depth) := by
  -- By the way the clause starts; only an `else` takes up a container that is there.
  cases starts with
  | fresh | case => exact ⟨rfl, inside, rfl, rfl⟩
  | default => exact ⟨rfl, inside, rfl, rfl⟩
  | otherwise kind form depth =>
    obtain rfl : oneLine = false := rests kind _ _ rfl
    exact ⟨rfl, inside, by simp [Frame.waiting], by simp [Frame.depth, depth]⟩

/-- How the block of a clause ends: with one brace more among the statements ahead, or with the
conditional that they start. -/
inductive BlockAhead : List Stmt → List Stmt → Bool → Prop
  | marked {ahead ahead' : List Stmt}
    (balanced : ∀ count, Stmt.balanced (count + 1) ahead' = Stmt.balanced count ahead) :
    BlockAhead ahead ahead' false
  | conditional {clause : Clause} (own : clause.kind ≠ .otherwise) (rest : List Stmt) :
    BlockAhead (.item (.clause clause) :: rest) (.item (.clause clause) :: rest) true

/-- The statements behind a clause are opened before a barrier that is the end of a block. -/
theorem openQueue_ahead {pos ends : Pos} {after queue : List Stmt} {child : Bool}
    (opens : openQueue pos (ahead ++ .item (.scopeEnd ends) :: after) = some (queue, child)) :
    ∃ ahead', queue = ahead' ++ .item (.scopeEnd ends) :: after ∧
      BlockAhead ahead ahead' child := by
  -- By what stands behind the clause: a brace, a statement on its own, or nothing that fits.
  cases ahead with
  | nil => cases opens
  | cons stmt rest =>
    -- A statement on its own is closed by the mark behind it.
    have alone : stmt.isBrace = false →
        BlockAhead (stmt :: rest) (stmt :: .item (.scopeEnd pos) :: rest) false := by
      intro plain
      refine .marked fun count => ?_
      rw [Stmt.balanced_cons plain, Stmt.balanced_cons plain, Stmt.balanced]
    cases stmt with
    -- A tree behind a clause is no block.
    | function | conditional => cases opens
    | item i =>
      -- Of the items, a brace, a clause, and a statement on its own may stand there.
      cases i with
      | scopeBegin =>
        cases opens
        exact ⟨rest, rfl, .marked fun _ => rfl⟩
      | clause clause =>
        by_cases other : clause.kind = .otherwise
        · simp [openQueue, other] at opens
        · simp only [List.cons_append, openQueue, other, if_false, Option.some.injEq,
            Prod.mk.injEq] at opens
          obtain ⟨rfl, rfl⟩ := opens
          exact ⟨.item (.clause clause) :: rest, rfl, .conditional other rest⟩
      | var var =>
        -- The mark comes behind the initializer of a variable.
        cases rest with
        | nil =>
          cases opens
          exact ⟨_, rfl, alone rfl⟩
        | cons second rest =>
          cases second with
          | function | conditional =>
            cases opens
            exact ⟨_, rfl, alone rfl⟩
          | item j =>
            cases j with
            | initializer init =>
              cases opens
              exact ⟨.item (.var var) :: .item (.initializer init) :: .item (.scopeEnd pos) :: rest,
                rfl, .marked fun _ => rfl⟩
            | _ =>
              cases opens
              exact ⟨_, rfl, alone rfl⟩
      | instruction | call | ret | label =>
        -- These are statements on their own.
        cases opens
        exact ⟨_, rfl, alone rfl⟩
      | _ => cases opens

/-- The innermost container gets another number of open blocks, and a brace that makes up for it. -/
theorem Enclosed.withDepth {frame : Frame} {outer : List Frame} {less depth : Nat}
    (frames : s.frames = frame :: outer) (inside : Frame.InFunction decl s.frames)
    (depths : count + 1 + total (s.frames.map Frame.waiting) = total s.depths)
    (made : less + frame.depth = count + depth) (queue : s.queue = ahead ++ tail)
    (balanced : Stmt.balanced less ahead = true) (table : ScopeTable) (brace : Stmt) :
    (s.reading table s.queue ((frame.withDepth depth).add [brace] :: outer)).Enclosed decl tail
      ahead less := by
  -- The other containers are the same, so that the numbers are off by the one depth.
  rw [frames] at inside
  simp only [Nesting.depths, frames, List.map_cons, total_cons, Frame.waiting_eq] at depths
  refine ⟨queue, balanced, Frame.inFunction_add _ (Frame.inFunction_withDepth _ inside), ?_⟩
  simp only [Nesting.depths, reading, List.map_cons, total_cons, Frame.waiting_eq,
    Frame.oneLine_add, Frame.oneLine_withDepth, Frame.depth_add, Frame.depth_withDepth]
  omega

/-- When the last block of a conditional is closed, the containers around it are in the function,
and their blocks are closed by the braces and marks that are left. -/
theorem depths_around {cond : Conditional Stmt} {outer : List Frame} {pos : Pos}
    (frames : s.frames = .conditional cond false :: outer) (inside : Frame.InFunction decl s.frames)
    (depths : count + 1 + total (s.frames.map Frame.waiting) = total s.depths)
    (balanced : Stmt.balanced count (.item (.scopeEnd pos) :: ahead) = true)
    (single : cond.depth = 1) :
    ∃ less, Stmt.balanced less ahead = true ∧ Frame.InFunction decl outer ∧
      less + 1 + total (outer.map Frame.waiting) = total (outer.map Frame.depth) := by
  -- The conditional accounts for one open block and waits for no mark.
  obtain ⟨less, rfl, balanced⟩ := Stmt.balanced_scopeEnd balanced
  rw [frames] at inside
  simp only [Nesting.depths, frames, List.map_cons, total_cons, Frame.waiting, Frame.depth,
    Bool.toNat_false] at depths
  exact ⟨less, balanced, inside, by omega⟩

/-- What is taken along with the statement that is read stands before the barrier. -/
theorem ahead_of_cons {first : Stmt} {ends : Pos} {after rest : List Stmt}
    (queue : ahead ++ .item (.scopeEnd ends) :: after = first :: rest)
    (plain : first.isBrace = false) :
    ∃ ahead', rest = ahead' ++ .item (.scopeEnd ends) :: after ∧
      ∀ count, Stmt.balanced count ahead = Stmt.balanced count ahead' := by
  -- The barrier itself is a brace, so that the statement is in front of it.
  cases ahead with
  | nil =>
    cases queue
    cases plain
  | cons _ ahead' =>
    cases queue
    exact ⟨ahead', rfl, fun _ => Stmt.balanced_cons plain⟩

/-- A transition inside of a function stays inside of it, up to a barrier that is the end of a
block. -/
theorem Transition.inside {ends : Pos} {after : List Stmt} (moves : Transition s stmt s')
    (queue : s.queue = ahead ++ .item (.scopeEnd ends) :: after)
    (balanced : Stmt.balanced count (stmt :: ahead) = true)
    (inside : Frame.InFunction decl s.frames)
    (depths : count + 1 + total (s.frames.map Frame.waiting) = total s.depths)
    (expects : s.Expects (stmt :: ahead))
    (allOpen : (∀ pos, stmt ≠ .item (.clause ⟨.otherwise, pos⟩)) → ∀ depth ∈ s.depths, 1 ≤ depth)
    (brace : s'.session.scopes.current = s.session.scopes.current → stmt.isBrace = false) :
    s'.Inside decl (.item (.scopeEnd ends) :: after) := by
  -- Unless a conditional is started, the innermost container waits for nothing.
  have rests : (∀ clause, stmt = .item (.clause clause) → clause.kind = .otherwise) →
      ∀ frame outer, s.frames = frame :: outer → frame.oneLine = false := by
    intro other frame outer frames
    cases waits : frame.oneLine with
    | false => rfl
    | true =>
      obtain ⟨clause, _, same, own⟩ := expects frame outer frames waits
      exact (own (other clause (List.cons.inj same).1)).elim
  -- Inside of the function there is a container.
  obtain ⟨frame, outer, frames⟩ : ∃ frame outer, s.frames = frame :: outer := by
    cases frames : s.frames with
    | nil =>
      rw [frames] at inside
      exact inside.elim
    | cons frame outer => exact ⟨frame, outer, rfl⟩
  cases moves with
  | types decl =>
    -- A declaration of a type is read past.
    rw [Stmt.balanced_cons rfl] at balanced
    have rested := rests (by rintro _ ⟨⟩) _ _ frames
    exact ⟨ahead, count, ⟨queue, balanced, inside, depths⟩, .ofRested frames rested⟩
  | @passes item item' table queue' _ before _ notes read added =>
    have plain : (Stmt.item item).isBrace = false := by
      refine brace ?_
      rw [added.same.2.2]
      exact notes.current
    rw [Stmt.balanced_cons plain] at balanced
    -- An initializer may be read along, which is no brace.
    obtain ⟨ahead', queued, balanced'⟩ : ∃ ahead',
        queue' = ahead' ++ .item (.scopeEnd ends) :: after ∧
          Stmt.balanced count ahead' = true := by
      obtain rfl | ⟨init, same⟩ := read
      · exact ⟨ahead, queue, balanced⟩
      · obtain ⟨ahead', queued, equal⟩ := ahead_of_cons (queue.symm.trans same) rfl
        exact ⟨ahead', queued, (equal count).symm.trans balanced⟩
    have rested : frame.oneLine = false := by
      refine rests ?_ _ _ frames
      rintro clause ⟨⟩
      cases before
    have enclosed : (s.reading table queue' s.frames).Enclosed decl
        (.item (.scopeEnd ends) :: after) ahead' count := ⟨queued, balanced', inside, depths⟩
    exact ⟨ahead', count, added.enclosed enclosed, added.expects (.ofRested frames rested)⟩
  | tree tree added =>
    -- A tree is added as it is, and is no brace either.
    have plain : stmt.isBrace = false := by
      cases stmt with
      | item item => exact (tree item rfl).elim
      | function | conditional => rfl
    rw [Stmt.balanced_cons plain] at balanced
    have rested := rests (fun _ same => (tree _ same).elim) _ _ frames
    exact ⟨ahead, count, added.enclosed ⟨queue, balanced, inside, depths⟩,
      added.expects (.ofRested frames rested)⟩
  | function none => cases none.symm.trans frames
  | @block clause cond oneLine child outer queue' pos starts follows =>
    -- A clause opens a block, which ends at a brace or at a mark.
    rw [queue] at follows
    rw [Stmt.balanced_cons rfl] at balanced
    have otherwise : clause.kind = .otherwise → ∀ frame outer, s.frames = frame :: outer →
        frame.oneLine = false := by
      intro kind
      apply rests
      rintro _ ⟨⟩
      exact kind
    obtain ⟨rfl, around, waiting, deep⟩ := starts.inFunction inside otherwise
    have single : (opened cond).depth = 1 := by simp [opened]
    -- The marks that are waited for are counted with the braces.
    unfold Nesting.depths at depths
    obtain ⟨ahead', rfl, closes⟩ := openQueue_ahead follows
    cases closes with
    | marked same =>
      refine ⟨ahead', count + 1, ⟨rfl, (same count).trans balanced, around, ?_⟩, .ofRested rfl rfl⟩
      simp only [Nesting.depths, reading, List.map_cons, total_cons, waiting, deep, Frame.depth,
        single, Frame.waiting, Bool.or_false, Bool.toNat_false]
      omega
    | conditional own rest =>
      refine ⟨_, count, ⟨rfl, balanced, around, ?_⟩, fun _ _ _ _ => ⟨_, rest, rfl, own⟩⟩
      simp only [Nesting.depths, reading, List.map_cons, total_cons, waiting, deep, Frame.depth,
        single, Frame.waiting, Bool.or_true, Bool.toNat_true]
      omega
  | deepens frames takes =>
    -- A brace opens one block more, and closing it again takes one of those.
    have rested := rests (by rintro _ ⟨⟩) _ _ frames
    exact ⟨ahead, count + 1, .withDepth frames inside depths (by omega) queue balanced _ _,
      .ofRested rfl (by simpa using rested)⟩
  -- Bare blocks stand outside of all containers.
  | opensBare none => cases none.symm.trans frames
  | closesBare none => cases none.symm.trans frames
  | rises frames takes deep popped =>
    have rested := rests (by rintro _ ⟨⟩) _ _ frames
    obtain ⟨less, rfl, balanced⟩ := Stmt.balanced_scopeEnd balanced
    exact ⟨ahead, less, .withDepth frames inside depths (by omega) queue balanced _ _,
      .ofRested rfl (by simpa using rested)⟩
  | @endsFunction pos func depth outer ns table s' frames last popped added =>
    -- The block of the function is not closed by a brace before the barrier.
    obtain ⟨less, rfl, balanced⟩ := Stmt.balanced_scopeEnd balanced
    rw [frames] at inside
    obtain ⟨-, rfl⟩ : _ ∧ outer = [] := inside
    simp only [Nesting.depths, frames, List.map_cons, List.map_nil, total_cons, total_nil,
      Frame.waiting, Frame.depth] at depths
    omega
  | @waits pos cond oneLine outer ns table frames last popped form next =>
    -- An `if` that waits for its `else` has no open block left.
    obtain rfl : oneLine = false := rests (by rintro _ ⟨⟩) _ _ frames
    have isOpen : 1 ≤ cond.depth :=
      allOpen (by rintro _ ⟨⟩) _ (by simp [Nesting.depths, frames, Frame.depth])
    obtain ⟨less, balanced, around, left⟩ := depths_around frames inside depths balanced (by omega)
    refine ⟨ahead, less, ⟨queue, balanced, around, ?_⟩, .ofRested rfl rfl⟩
    have shut : (closed cond).depth = 0 := by simp [closed]
    simpa [Nesting.depths, reading, Frame.waiting, Frame.depth, shut] using left
  | @endsConditional pos cond _ oneLine outer _ table queue' _ frames last popped finish added =>
    -- A conditional that is finished is added around, and the test behind it is read along.
    obtain rfl : oneLine = false := rests (by rintro _ ⟨⟩) _ _ frames
    have isOpen : 1 ≤ cond.depth :=
      allOpen (by rintro _ ⟨⟩) _ (by simp [Nesting.depths, frames, Frame.depth])
    obtain ⟨less, balanced, around, left⟩ := depths_around frames inside depths balanced (by omega)
    obtain ⟨ahead', queued, balanced'⟩ : ∃ ahead',
        queue' = ahead' ++ .item (.scopeEnd ends) :: after ∧ Stmt.balanced less ahead' = true := by
      generalize taken : s.queue = behind at finish
      cases finish with
      | plain => exact ⟨ahead, taken.symm.trans queue, balanced⟩
      | trailing =>
        obtain ⟨ahead', queued, equal⟩ := ahead_of_cons (queue.symm.trans taken) rfl
        exact ⟨ahead', queued, (equal less).symm.trans balanced⟩
    have enclosed : (s.reading table queue' outer).Enclosed decl (.item (.scopeEnd ends) :: after)
        ahead' less := ⟨queued, balanced', around, left⟩
    exact (added.enclosed enclosed).cascaded pos
  | @endsArm pos cond switch oneLine waiting outer ns table frames last popped form single =>
    -- The block of a case is handed to its switch.
    obtain rfl : oneLine = false := rests (by rintro _ ⟨⟩) _ _ frames
    have isOpen : 1 ≤ cond.depth :=
      allOpen (by rintro _ ⟨⟩) _ (by simp [Nesting.depths, frames, Frame.depth])
    obtain ⟨less, balanced, around, left⟩ := depths_around frames inside depths balanced (by omega)
    have enclosed : (s.reading table s.queue
        (.conditional (addBlock switch (closed cond).first) waiting :: outer)).Enclosed
          decl (.item (.scopeEnd ends) :: after) ahead less := ⟨queue, balanced, around, left⟩
    exact enclosed.cascaded pos

section Barrier

variable {start : Namespace} {ends : Pos} {after : List Stmt}

/-- As long as the barrier is not reached, reading stays inside of the function. -/
theorem Advances.inside (advances : s.Advances s') (inStep : s.InStep start)
    (inside : s.Inside decl (.item (.scopeEnd ends) :: after))
    (before : s.queue ≠ .item (.scopeEnd ends) :: after) :
    s'.Inside decl (.item (.scopeEnd ends) :: after) := by
  -- The statement stands in front of the barrier, and makes a transition there.
  obtain ⟨ahead, count, ⟨queue, balanced, within, depths⟩, expects⟩ := inside
  obtain ⟨queued, ran⟩ := advances
  cases ahead with
  | nil => exact (before queue).elim
  | cons first ahead =>
    cases queued.symm.trans queue
    exact (step_leads _ ran).inside rfl balanced within depths expects (inStep.allOpen queued)
      fun same => step_isBrace ran same

/-- At the barrier nothing is open but the function. -/
theorem Inside.reached (inside : s.Inside decl (.item (.scopeEnd ends) :: after))
    (inStep : s.InStep start) (reached : s.queue = .item (.scopeEnd ends) :: after) :
    ∃ func, s.frames = [.function func 1] ∧ func.decl = decl := by
  -- Nothing is ahead any more, so that no brace is missing but the one of the function.
  obtain ⟨ahead, count, ⟨queue, balanced, within, depths⟩, expects⟩ := inside
  obtain rfl : ahead = [] := List.self_eq_append_left.1 (reached.symm.trans queue)
  obtain rfl : count = 0 := by simpa [Stmt.balanced] using balanced
  have allOpen := inStep.allOpen reached nofun
  unfold Nesting.depths at depths allOpen
  cases frames : s.frames with
  | nil =>
    rw [frames] at within
    exact within.elim
  | cons frame outer =>
    -- The innermost container is the function, with its one block.
    rw [frames] at within depths allOpen
    cases frame with
    | function func depth =>
      obtain ⟨rfl, rfl⟩ : func.decl = decl ∧ outer = [] := within
      simp only [List.map_cons, List.map_nil, total_cons, total_nil, Frame.waiting, Frame.depth]
        at depths
      obtain rfl : depth = 1 := by omega
      exact ⟨func, rfl, rfl⟩
    | conditional cond oneLine =>
      -- A conditional would leave more blocks open than there are marks.
      obtain rfl : oneLine = false := by
        cases waits : oneLine with
        | false => rfl
        | true =>
          obtain ⟨_, _, same, -⟩ := expects _ _ frames waits
          cases same
      have around : Frame.InFunction decl outer := within
      -- The conditional has a block open, for which no brace is left.
      obtain ⟨here, others⟩ := List.forall_mem_cons.1 allOpen
      have more := Frame.waiting_lt_depth around others
      simp only [List.map_cons, total_cons, Frame.waiting, Bool.toNat_false] at depths
      omega

end Barrier

end Nesting

end CrossAsm
