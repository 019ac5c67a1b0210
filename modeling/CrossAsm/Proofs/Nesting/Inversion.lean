import CrossAsm.Proofs.Nesting.Reading

/-! Nesting undoes writing: from the flat statements of a tree, whichever braces they leave out, the
tree itself is read back. -/

namespace CrossAsm

/-- Whether a tree is a conditional. -/
def Tree.governs : Tree → Bool
  | .simple _ | .block .. => false
  | _ => true

namespace Nesting

/-- What may stand behind a part: no initializer, and no `else` where the part would take it. -/
structure Follows (hangs : Bool) (rest : List Stmt) : Prop where
  /-- A variable at the end of the part is not filled. -/
  filling : startsFilling rest = false
  /-- An `if` at the end of the part is not continued. -/
  continues : hangs = true → startsElse rest = false

/-- A brace may stand behind any part. -/
theorem follows_scopeEnd (hangs : Bool) (pos : Pos) (rest : List Stmt) :
    Follows hangs (.item (.scopeEnd pos) :: rest) :=
  ⟨rfl, fun _ => rfl⟩

/-- What may stand behind an `if` may stand behind any part. -/
theorem Follows.any {rest : List Stmt} (follows : Follows true rest) (hangs : Bool) :
    Follows hangs rest :=
  ⟨follows.filling, fun _ => follows.continues rfl⟩

/-- A tree starts with a statement that may stand behind any part. -/
theorem follows_tree {t : Tree} {inner : List Stmt} {hangs : Bool}
    (writes : Writes (.tree t) inner hangs) (rest : List Stmt) : Follows true (inner ++ rest) := by
  -- Each form has a first statement of its own, which is neither of the two.
  cases writes with
  | simple simple =>
    rcases simple with _ | _ | _ | ⟨_, init⟩ | _
    case var => cases init <;> exact ⟨rfl, fun _ => rfl⟩
    all_goals exact ⟨rfl, fun _ => rfl⟩
  | _ => exact ⟨rfl, fun _ => rfl⟩

/-- Trees start so, or are none. -/
theorem follows_list {ts : List Tree} {inner rest : List Stmt} {hangs : Bool}
    (writes : Writes (.list ts) inner hangs) (follows : Follows true rest) :
    Follows true (inner ++ rest) := by
  -- An empty list leaves what follows.
  cases writes with
  | nil => exact follows
  | cons writesFirst writesRest =>
    rw [List.append_assoc]
    exact follows_tree writesFirst _

/-- Arms start with a clause that is no `else`, or are none. -/
theorem follows_arms {arms : List (Arm Tree)} {inner rest : List Stmt} {hangs : Bool}
    (writes : Writes (.arms arms) inner hangs) (follows : Follows true rest) :
    Follows true (inner ++ rest) := by
  -- By the first arm, if there is one.
  cases writes with
  | noArm => exact follows
  -- A case and a default start with a clause of their own.
  | @arm arm _ _ _ _ _ _ _ =>
    obtain ⟨value, pos, body⟩ := arm
    cases value <;> exact ⟨rfl, fun _ => rfl⟩

/-- A conditional starts with its clause. -/
theorem clause_of_governs {t : Tree} {inner : List Stmt} {hangs : Bool}
    (writes : Writes (.tree t) inner hangs) (governs : t.governs) :
    ∃ clause tail, inner = .item (.clause clause) :: tail ∧ clause.kind ≠ .otherwise := by
  -- Every form of conditional is written behind its clause.
  cases writes with
  | simple | block => cases governs
  | _ => exact ⟨_, _, rfl, by simp⟩

/-- A tree that stands alone is a conditional or a simple statement. -/
theorem simple_of_standsAlone {t : Tree} (alone : t.standsAlone) (plain : t.governs = false) :
    ∃ simple, t = .simple simple := by
  -- By cases on the tree.
  cases t with
  | simple simple => exact ⟨simple, rfl⟩
  | block => cases alone
  | _ => cases plain

/-- A simple statement in place of a block gets the end of one behind it. -/
theorem openQueue_simple (simple : Simple) (pos : Pos) {rest : List Stmt}
    (filling : startsFilling rest = false) :
    openQueue pos (simple.written ++ rest) =
      some (simple.written ++ .item (.scopeEnd pos) :: rest, false) := by
  -- By cases on the statement; only a variable looks at what stands behind it.
  rcases simple with _ | _ | _ | ⟨var, init⟩ | _
  case var =>
    cases init with
    | some => rfl
    | none =>
      -- Behind a variable an initializer would be taken for its own.
      rcases rest with _ | ⟨item | func | cond, others⟩
      · rfl
      · cases item <;> first | rfl | cases filling
      · rfl
      · rfl
  all_goals rfl

/-! ### What it is to read a part -/

/-- The state in which a part may be read: in a function, outside the global scope, and with all of its
simple statements allowed. -/
structure Ready (decl : FunctionDecl) (table : ScopeTable) (frames : List Frame) (part : Part) :
    Prop where
  /-- The innermost function. -/
  inside : frames.findSome? Frame.decl? = some decl
  /-- The scope of a function or block is open. -/
  inner : table.current ≠ .global
  /-- Names do not clash, and returns are in their place. -/
  allowed : ∀ simple ∈ part.simples, simple.Allowed decl table

namespace Ready

variable {decl : FunctionDecl} {table later : ScopeTable} {frames others : List Frame}
  {part sub : Part}

/-- In a scope of its own a part of the part may be read. -/
theorem push (ready : Ready decl table frames part)
    (same : others.findSome? Frame.decl? = frames.findSome? Frame.decl?)
    (among : ∀ simple ∈ sub.simples, simple ∈ part.simples) :
    Ready decl (table.push none) others sub := by
  -- The function around and what is allowed in it stay the same.
  refine ⟨same.trans ready.inside, table.push_ne_global none, fun simple mem => ?_⟩
  -- Opening a scope declares nothing.
  have allowed := ready.allowed simple (among simple mem)
  cases simple <;> exact allowed

/-- Behind statements of the same scope a part of the part may be read. -/
theorem behind (ready : Ready decl table frames part) {simples : List Simple}
    (within : table.Within simples later)
    (same : others.findSome? Frame.decl? = frames.findSome? Frame.decl?)
    (among : ∀ simple ∈ sub.simples, simple ∈ part.simples) :
    Ready decl later others sub :=
  ⟨same.trans ready.inside, fun global => ready.inner (within.current ▸ global),
    fun simple mem => within.allowed (ready.allowed simple (among simple mem))⟩

end Ready

/-- The statements of a tree are read as the tree. Behind a conditional the end mark is put back that
its container waits for. -/
def ReadsTree (decl : FunctionDecl) (t : Tree) (inner : List Stmt) (hangs : Bool) : Prop :=
  ∀ {s : Nesting} {table : ScopeTable} {rest : List Stmt} {frame : Frame} {outer : List Frame},
    Ready decl table (frame :: outer) (.tree t) → frame.Accepts →
    (t.governs = true ∨ frame.oneLine = false) → Follows hangs rest →
    ∃ pos, run (s.reading table (inner ++ rest) (frame :: outer)) =
      run (s.reading (t.nested decl.isInterrupt table).2 (frame.marks pos ++ rest)
        (frame.rested.add (t.nested decl.isInterrupt table).1 :: outer))

/-- Statements one after another are read as the trees. -/
def ReadsList (decl : FunctionDecl) (ts : List Tree) (inner : List Stmt) : Prop :=
  ∀ {s : Nesting} {table : ScopeTable} {rest : List Stmt} {frame : Frame} {outer : List Frame},
    Ready decl table (frame :: outer) (.list ts) → frame.Accepts → frame.oneLine = false →
    Follows true rest →
    run (s.reading table (inner ++ rest) (frame :: outer)) =
      run (s.reading (Tree.nestedAll decl.isInterrupt table ts).2 rest
        (frame.add (Tree.nestedAll decl.isInterrupt table ts).1 :: outer))

/-- The statements behind a clause open its block, are read as the trees, and leave the end of the
block, which may be a mark that was put there. -/
def ReadsBody (decl : FunctionDecl) (ts : List Tree) (inner : List Stmt) (hangs : Bool) : Prop :=
  ∀ {s : Nesting} {table : ScopeTable} {rest : List Stmt} {cond : Conditional Stmt}
    {outer : List Frame} (pos : Pos),
    Ready decl table (.conditional cond false :: outer) (.body ts) →
    (Frame.conditional cond false).Accepts → Follows hangs rest →
    ∃ queue child mark, openQueue pos (inner ++ rest) = some (queue, child) ∧
      run (s.reading table queue (.conditional cond child :: outer)) =
        run (s.reading (Tree.nestedAll decl.isInterrupt table ts).2
          (.item (.scopeEnd mark) :: rest)
          ((Frame.conditional cond false).add (Tree.nestedAll decl.isInterrupt table ts).1 ::
            outer))

/-- A switch with the blocks of its arms. -/
def withArms (switch : Conditional Stmt) (arms : List (Arm Tree)) (blocks : List (Block Stmt)) :
    Conditional Stmt :=
  { switch with
    form := if arms.any Arm.isDefault then .switchDefault else switch.form
    others := switch.others ++ blocks }

/-- How many defaults a switch still takes. -/
def defaultsLeft (switch : Conditional Stmt) : Nat :=
  if switch.form = .switchDefault then 0 else 1

/-- The statements of arms are read as the arms, into their switch. -/
def ReadsArms (decl : FunctionDecl) (arms : List (Arm Tree)) (inner : List Stmt) : Prop :=
  ∀ {s : Nesting} {table : ScopeTable} {rest : List Stmt} {switch : Conditional Stmt}
    {outer : List Frame},
    Ready decl table (.conditional switch false :: outer) (.arms arms) → switch.isSwitch = true →
    switch.depth = 1 → (arms.filter Arm.isDefault).length ≤ defaultsLeft switch →
    Follows true rest →
    run (s.reading table (inner ++ rest) (.conditional switch false :: outer)) =
      run (s.reading (Tree.nestedArms decl.isInterrupt table arms).2 rest
        (.conditional
          (withArms switch arms (Tree.nestedArms decl.isInterrupt table arms).1) false :: outer))

/-- The statements of a part are read as the part. -/
def Reads (decl : FunctionDecl) (part : Part) (inner : List Stmt) (hangs : Bool) : Prop :=
  match part with
  | .tree t => ReadsTree decl t inner hangs
  | .list ts => ReadsList decl ts inner
  | .body ts => ReadsBody decl ts inner hangs
  | .arms arms => ReadsArms decl arms inner

/-! ### Simple statements and blocks -/

section Parts

variable {decl : FunctionDecl} {hangs : Bool} {inner : List Stmt}

/-- A simple statement is read. -/
theorem reads_simple (simple : Simple) : ReadsTree decl (.simple simple) simple.written hangs := by
  intro s table rest frame outer ready accepts free follows
  -- It is no conditional, so its container waits for no mark.
  have free : frame.oneLine = false := by simpa [Tree.governs] using free
  have allowed : simple.Allowed decl table := ready.allowed simple (by simp [Part.simples, Tree.simples])
  refine ⟨default, ?_⟩
  rw [frame.rested_of_oneLine free, frame.marks_of_oneLine free, List.nil_append, Tree.nested]
  exact run_simple accepts ready.inside ready.inner allowed follows.filling

/-- A block is read when its statements are. -/
theorem reads_block {begins ends : Pos} {body : List Tree} (reads : ReadsList decl body inner) :
    ReadsTree decl (.block begins ends body)
      (.item (.scopeBegin begins) :: inner ++ [.item (.scopeEnd ends)]) hangs := by
  intro s table rest frame outer ready accepts free follows
  have free : frame.oneLine = false := by simpa [Tree.governs] using free
  -- The container is one block deeper and has the brace already.
  let grown := frame.deepened.add [.item (.scopeBegin begins)]
  have readyInner : Ready decl (table.push none) (grown :: outer) (.list body) := by
    refine ready.push ?_ fun simple mem => mem
    simp [List.findSome?_cons, grown]
  have acceptsInner : grown.Accepts := (Frame.accepts_add _ _).2 (frame.accepts_deepened accepts)
  have current := (Tree.nestedAll_within decl.isInterrupt (table.push_ne_global none) body).current
  refine ⟨default, ?_⟩
  rw [frame.rested_of_oneLine free, frame.marks_of_oneLine free, List.nil_append, Tree.nested]
  -- The brace opens a scope, the statements fill it, and the other brace leaves it.
  have opens : run (s.reading table
        (.item (.scopeBegin begins) :: inner ++ [.item (.scopeEnd ends)] ++ rest) (frame :: outer)) =
      run (s.reading (table.push none) (inner ++ .item (.scopeEnd ends) :: rest)
        (grown :: outer)) := by
    rw [List.cons_append, List.cons_append, List.append_assoc]
    exact run_deepen accepts begins
  have fills := reads (s := s) readyInner acceptsInner (by simp [grown, free])
    (follows_scopeEnd true ends rest)
  rw [Frame.add_add] at fills
  exact opens.trans (fills.trans (run_rise accepts current _ ends))

/-- Statements are read one after another. -/
theorem reads_cons {t : Tree} {ts : List Tree} {first rest : List Stmt}
    (readsFirst : ReadsTree decl t first hangs) (readsRest : ReadsList decl ts rest)
    (starts : ∀ {after}, Follows true after → Follows true (rest ++ after)) :
    ReadsList decl (t :: ts) (first ++ rest) := by
  -- The first tree leaves its container as it was, but for what it adds.
  intro s table after frame outer ready accepts free follows
  have readyFirst : Ready decl table (frame :: outer) (.tree t) := by
    refine ready.behind (.refl table []) rfl fun simple mem => ?_
    exact List.mem_append_left _ mem
  -- Behind the first tree the same scope is open, so the others may be read.
  have within := t.nested_within decl.isInterrupt ready.inner
  let grown := frame.add (t.nested decl.isInterrupt table).1
  have readyRest : Ready decl (t.nested decl.isInterrupt table).2 (grown :: outer) (.list ts) := by
    refine ready.behind within ?_ fun simple mem => ?_
    · simp [List.findSome?_cons, grown]
    · exact List.mem_append_right _ mem
  have acceptsRest : grown.Accepts := (Frame.accepts_add _ _).2 accepts
  obtain ⟨pos, passed⟩ := readsFirst (s := s) readyFirst accepts (.inr free) ((starts follows).any hangs)
  rw [frame.rested_of_oneLine free, frame.marks_of_oneLine free, List.nil_append] at passed
  rw [List.append_assoc, passed, readsRest readyRest acceptsRest (by simp [grown, free]) follows,
    Frame.add_add, Tree.nestedAll]

/-! ### Bodies -/

/-- In braces the statements of a body are read as they are. -/
theorem reads_braced {begins ends : Pos} {body : List Tree} (reads : ReadsList decl body inner) :
    ReadsBody decl body (.item (.scopeBegin begins) :: inner ++ [.item (.scopeEnd ends)])
      hangs := by
  -- The brace is taken when the block is opened, and its end is left to be read.
  intro s table rest cond outer pos ready accepts follows
  refine ⟨inner ++ .item (.scopeEnd ends) :: rest, false, ends, ?_, ?_⟩
  · simp [openQueue]
  · exact reads (ready.behind (.refl table []) rfl fun simple mem => mem) accepts rfl
      (follows_scopeEnd true ends rest)

/-- Without braces a tree that stands alone is read, and the end of the block is marked: behind a simple
statement when the block is opened, behind a conditional when that is finished. -/
theorem reads_alone {t : Tree} (alone : t.standsAlone) (writes : Writes (.tree t) inner hangs)
    (reads : ReadsTree decl t inner hangs) : ReadsBody decl [t] inner hangs := by
  intro s table rest cond outer pos ready accepts follows
  -- The tree is all there is in the body.
  have readyTree (oneLine : Bool) :
      Ready decl table (.conditional cond oneLine :: outer) (.tree t) := by
    refine ready.behind (.refl table []) rfl fun simple mem => ?_
    exact List.mem_append_left _ mem
  have single : Tree.nestedAll decl.isInterrupt table [t] = t.nested decl.isInterrupt table := by
    simp [Tree.nestedAll]
  rw [single]
  cases governs : t.governs with
  | true =>
    obtain ⟨clause, tail, rfl, other⟩ := clause_of_governs writes governs
    -- The container waits for the mark that the conditional puts back.
    obtain ⟨mark, passed⟩ := reads (s := s) (readyTree true) accepts
      (.inl governs) follows
    refine ⟨_, true, mark, ?_, passed⟩
    simp [openQueue, other]
  | false =>
    -- The mark is put behind a simple statement before it is read.
    obtain ⟨simple, rfl⟩ := simple_of_standsAlone alone governs
    cases writes
    obtain ⟨mark, passed⟩ := reads (s := s) (readyTree false) accepts
      (.inr rfl) (follows_scopeEnd _ pos rest)
    exact ⟨_, false, pos, openQueue_simple simple pos follows.filling, passed⟩

/-! ### Conditionals -/

/-- A conditional whose first block has been read and is to be closed. -/
def filled (clause : Clause) (ns : Namespace) (stmts : List Stmt) : Conditional Stmt :=
  { form := clause.form, first := ⟨clause, stmts, true⟩, depth := 1, ns }

/-- A clause and its body are read up to the end of the block. -/
theorem run_body (clause : Clause) {body : List Tree} {part : Part} {s : Nesting}
    {table : ScopeTable} {rest : List Stmt} {frames : List Frame}
    (starts : startsConditional clause) (plain : clause.form ≠ .switch)
    (reads : ReadsBody decl body inner hangs) (ready : Ready decl table frames part)
    (among : ∀ simple ∈ Tree.simplesAll body, simple ∈ part.simples)
    (follows : Follows hangs rest) :
    ∃ mark, run (s.reading table (.item (.clause clause) :: (inner ++ rest)) frames) =
      run (s.reading (Tree.nestedAll decl.isInterrupt (table.push none) body).2
        (.item (.scopeEnd mark) :: rest)
        (.conditional (filled clause table.current
          (Tree.nestedAll decl.isInterrupt (table.push none) body).1) false :: frames)) := by
  -- The body is read in a scope of its own, into the conditional that was just opened.
  let begun : Conditional Stmt := opened (.ofClause clause table.current)
  have readyBody : Ready decl (table.push none) (.conditional begun false :: frames) (.body body) :=
    ready.push rfl among
  have accepts : (Frame.conditional begun false).Accepts := by
    refine ⟨?_, Nat.le_refl 1⟩
    -- Only the clause of a switch makes a switch.
    obtain ⟨kind, pos⟩ := clause
    cases kind <;> first | rfl | exact absurd rfl plain
  obtain ⟨queue, child, mark, queued, passed⟩ := reads (s := s) clause.pos readyBody accepts follows
  exact ⟨mark, (run_open starts queued).trans passed⟩

/-- Behind a body the scope is still open that was opened for it. -/
theorem current_body (decl : FunctionDecl) (table : ScopeTable) (body : List Tree) :
    (Tree.nestedAll decl.isInterrupt (table.push none) body).2.current =
      table.current.child (ScopeTable.anonymousName table.anonymous) :=
  (Tree.nestedAll_within decl.isInterrupt (table.push_ne_global none) body).current

/-- A conditional of one block is read, unless an `else` continues it. -/
theorem run_governed (clause : Clause) {body : List Tree} {part : Part} {s : Nesting}
    {table : ScopeTable} {rest : List Stmt} {frame : Frame} {outer : List Frame}
    (starts : startsConditional clause) (plain : clause.form ≠ .switch ∧ clause.form ≠ .doWhile)
    (reads : ReadsBody decl body inner hangs) (ready : Ready decl table (frame :: outer) part)
    (accepts : frame.Accepts) (among : ∀ simple ∈ Tree.simplesAll body, simple ∈ part.simples)
    (follows : Follows hangs rest) (ends : clause.form = .ifThen → startsElse rest = false) :
    ∃ mark, run (s.reading table (.item (.clause clause) :: (inner ++ rest)) (frame :: outer)) =
      run (s.reading
        ((Tree.nestedAll decl.isInterrupt (table.push none) body).2.leave table.current)
        (frame.marks mark ++ rest)
        (frame.rested.add [.conditional
          { form := clause.form, ns := table.current
            first := ⟨clause, (Tree.nestedAll decl.isInterrupt (table.push none) body).1,
              false⟩ }] :: outer)) := by
  obtain ⟨mark, fills⟩ := run_body (s := s) clause starts plain.1 reads ready among follows
  -- The block is closed by whatever marks its end, and nothing belongs to it any more.
  have own : clause.form ≠ .case ∧ clause.form ≠ .default := by
    -- The clauses of arms start no conditional.
    obtain ⟨kind, pos⟩ := clause
    cases kind <;> simp [startsConditional, Clause.form] at starts ⊢
  exact ⟨mark, fills.trans
    (run_close accepts rfl (current_body decl table body) ⟨plain.2, own⟩ ends)⟩

/-- An `if` is read when no `else` follows it. -/
theorem reads_ifThen {test : Test} {pos : Pos} {body : List Tree}
    (reads : ReadsBody decl body inner hangs) :
    ReadsTree decl (.ifThen test pos body) (.item (.clause ⟨.ifTest test, pos⟩) :: inner) true := by
  -- An `if` has one block, and nothing behind it belongs to it.
  intro s table rest frame outer ready accepts free follows
  rw [Tree.nested]
  exact run_governed ⟨.ifTest test, pos⟩ rfl (by simp [Clause.form]) reads ready accepts
    (fun simple mem => mem) (follows.any hangs) fun _ => follows.continues rfl

/-- A `while` loop is read. -/
theorem reads_whileLoop {test : Test} {pos : Pos} {body : List Tree}
    (reads : ReadsBody decl body inner hangs) :
    ReadsTree decl (.whileLoop test pos body) (.item (.clause ⟨.whileTest test, pos⟩) :: inner)
      hangs := by
  -- A loop has one block.
  intro s table rest frame outer ready accepts free follows
  rw [Tree.nested]
  exact run_governed ⟨.whileTest test, pos⟩ rfl (by simp [Clause.form]) reads ready accepts
    (fun simple mem => mem) follows (by simp [Clause.form])

/-- An endless loop is read. -/
theorem reads_forever {pos : Pos} {body : List Tree} (reads : ReadsBody decl body inner hangs) :
    ReadsTree decl (.forever pos body) (.item (.clause ⟨.forever, pos⟩) :: inner) hangs := by
  -- An endless loop has one block.
  intro s table rest frame outer ready accepts free follows
  rw [Tree.nested]
  exact run_governed ⟨.forever, pos⟩ rfl (by simp [Clause.form]) reads ready accepts
    (fun simple mem => mem) follows (by simp [Clause.form])

/-- A `do` loop is read with its trailing test. -/
theorem reads_doWhile {test : Test} {pos testPos : Pos} {body : List Tree} {after : Bool}
    (reads : ReadsBody decl body inner hangs) :
    ReadsTree decl (.doWhile pos body test testPos)
      (.item (.clause ⟨.doBlock, pos⟩) :: inner ++ [.item (.clause ⟨.whileTest test, testPos⟩)])
      after := by
  -- The body is read as that of a loop, and the test is taken in at its end.
  intro s table rest frame outer ready accepts free follows
  -- The test stands right behind the body, which it does not continue.
  have test : Follows hangs (.item (.clause ⟨.whileTest test, testPos⟩) :: rest) :=
    ⟨rfl, fun _ => rfl⟩
  obtain ⟨mark, fills⟩ := run_body (s := s) ⟨.doBlock, pos⟩ rfl (by simp [Clause.form])
    reads ready (fun simple mem => mem) test
  refine ⟨mark, ?_⟩
  rw [Tree.nested, List.cons_append, List.cons_append, List.append_assoc]
  exact fills.trans (run_close_do accepts rfl (current_body decl table body) rfl _ _)

/-- An `if` is read with its `else`. -/
theorem reads_ifElse {test : Test} {pos elsePos : Pos} {body otherwise : List Tree}
    {tail : List Stmt} (reads : ReadsBody decl body inner false)
    (readsElse : ReadsBody decl otherwise tail hangs) :
    ReadsTree decl (.ifElse test pos body elsePos otherwise)
      (.item (.clause ⟨.ifTest test, pos⟩) :: inner ++
        .item (.clause ⟨.otherwise, elsePos⟩) :: tail) hangs := by
  intro s table rest frame outer ready accepts free follows
  let clause : Clause := ⟨.otherwise, elsePos⟩
  -- The body ends in no `if` that would take the `else`.
  have leaves : Follows false (.item (.clause clause) :: (tail ++ rest)) := ⟨rfl, by simp⟩
  obtain ⟨mark, fills⟩ := run_body (s := s) ⟨.ifTest test, pos⟩ rfl (by simp [Clause.form])
    reads ready (fun simple mem => List.mem_append_left _ mem) leaves
  -- The `else` block is opened in a scope beside that of the first block.
  let middle := (Tree.nestedAll decl.isInterrupt (table.push none) body).2.leave table.current
  have within : table.Within _ middle :=
    (Tree.nestedAll_within decl.isInterrupt (table.push_ne_global none) body).leave
  let first := filled ⟨.ifTest test, pos⟩ table.current
    (Tree.nestedAll decl.isInterrupt (table.push none) body).1
  let goesOn := opened (addBlock { closed first with form := .ifElse } { clause })
  have readyElse : Ready decl (middle.push none) (.conditional goesOn false :: frame :: outer)
      (.body otherwise) := by
    have readyMiddle : Ready decl middle (frame :: outer) (.body otherwise) :=
      ready.behind within rfl fun simple mem => List.mem_append_right _ mem
    exact readyMiddle.push rfl fun simple mem => mem
  obtain ⟨queue, child, last, queued, passed⟩ :=
    readsElse (s := s) elsePos readyElse ⟨rfl, Nat.le_refl 1⟩ follows
  -- At the end of the first body the `else` comes next, and the conditional goes on with it.
  have continues : run (s.reading (Tree.nestedAll decl.isInterrupt (table.push none) body).2
        (.item (.scopeEnd mark) :: .item (.clause clause) :: (tail ++ rest))
        (.conditional first false :: frame :: outer)) =
      run (s.reading (middle.push none) queue
        (.conditional goesOn child :: frame :: outer)) :=
    run_close_else rfl (current_body decl table body) rfl elsePos queued
  -- The second body ends the conditional.
  let stmts := (Tree.nestedAll decl.isInterrupt (middle.push none) otherwise).1
  let whole := goesOn.modifyCurrent fun block => { block with body := block.body ++ stmts }
  have form : whole.form = .ifElse := rfl
  have closes : run (s.reading (Tree.nestedAll decl.isInterrupt (middle.push none) otherwise).2
        (.item (.scopeEnd last) :: rest) (.conditional whole false :: frame :: outer)) =
      run (s.reading
        ((Tree.nestedAll decl.isInterrupt (middle.push none) otherwise).2.leave table.current)
        (frame.marks last ++ rest)
        (frame.rested.add [.conditional (closed whole)] :: outer)) :=
    run_close accepts rfl (current_body decl middle otherwise) (by simp [form]) (by simp [form])
  refine ⟨last, ?_⟩
  rw [Tree.nested, List.append_assoc]
  exact fills.trans (continues.trans (passed.trans closes))

/-! ### Arms -/

/-- A switch may have no arm. -/
theorem reads_noArm : ReadsArms decl [] [] := by
  -- Nothing is added, and no default is met.
  intro s table rest switch outer ready selects single count follows
  have same : withArms switch [] [] = switch := by
    simp [withArms]
  rw [Tree.nestedArms, same, List.nil_append]

/-- An arm starts no switch. -/
theorem arm_isSwitch (arm : Arm Tree) (ns : Namespace) :
    (opened (.ofClause arm.clause ns)).isSwitch = false ∧
      ((opened (.ofClause arm.clause ns)).form = .case ∨
        (opened (.ofClause arm.clause ns)).form = .default) := by
  -- An arm is a case or a default.
  obtain ⟨value, pos, body⟩ := arm
  cases value
  · exact ⟨rfl, .inr rfl⟩
  · exact ⟨rfl, .inl rfl⟩

/-- A switch that takes an arm is still one with a block open, and takes a default less if the arm is
one. -/
theorem defaultsLeft_arm {switch : Conditional Stmt} {arm : Arm Tree} {arms : List (Arm Tree)}
    (count : ((arm :: arms).filter Arm.isDefault).length ≤ defaultsLeft switch)
    (block : Block Stmt) :
    (arm.isDefault → switch.form ≠ .switchDefault) ∧
      (arms.filter Arm.isDefault).length ≤ defaultsLeft (addBlock (armed switch arm) block) := by
  -- Only a default uses up the one that the switch takes.
  cases isDefault : arm.isDefault with
  | true =>
    rw [List.filter_cons_of_pos isDefault, List.length_cons] at count
    refine ⟨fun _ form => ?_, ?_⟩
    · simp [defaultsLeft, form] at count
    · have left : defaultsLeft switch ≤ 1 := by
        unfold defaultsLeft
        split <;> omega
      omega
  | false =>
    rw [List.filter_cons_of_neg (by simp [isDefault])] at count
    refine ⟨by simp, ?_⟩
    simpa [defaultsLeft, addBlock, armed, isDefault] using count

/-- The blocks of arms are added one by one. -/
theorem withArms_cons (switch : Conditional Stmt) (arm : Arm Tree) (arms : List (Arm Tree))
    (block : Block Stmt) (blocks : List (Block Stmt)) :
    withArms (addBlock (armed switch arm) block) arms blocks =
      withArms switch (arm :: arms) (block :: blocks) := by
  -- Whether there is a default is asked of the first arm and of the others.
  cases isDefault : arm.isDefault <;>
    simp [withArms, addBlock, armed, isDefault]

/-- Arms are read one after another into their switch. -/
theorem reads_arm {arm : Arm Tree} {arms : List (Arm Tree)} {tail : List Stmt}
    (reads : ReadsBody decl arm.body inner hangs) (readsRest : ReadsArms decl arms tail)
    (starts : ∀ {after}, Follows true after → Follows true (tail ++ after)) :
    ReadsArms decl (arm :: arms) (.item (.clause arm.clause) :: inner ++ tail) := by
  intro s table rest switch outer ready selects single count follows
  -- The block of the arm is read inside the switch, which knows of a default by then.
  let begun : Conditional Stmt := opened (.ofClause arm.clause table.current)
  let around : Frame := .conditional (armed switch arm) false
  have readyBody : Ready decl (table.push none) (.conditional begun false :: around :: outer)
      (.body arm.body) :=
    ready.push rfl fun simple mem => List.mem_append_left _ mem
  have plain := arm_isSwitch arm table.current
  obtain ⟨queue, child, mark, queued, passed⟩ := reads (s := s) arm.pos readyBody
    ⟨plain.1, Nat.le_refl 1⟩ ((starts follows).any hangs)
  -- The switch takes the block of the arm and is ready for the others.
  let stmts := (Tree.nestedAll decl.isInterrupt (table.push none) arm.body).1
  let middle := (Tree.nestedAll decl.isInterrupt (table.push none) arm.body).2.leave table.current
  let block : Block Stmt := ⟨arm.clause, stmts, false⟩
  let taken := addBlock (armed switch arm) block
  obtain ⟨fresh, countRest⟩ := defaultsLeft_arm count block
  -- Reading the arm begins with its clause, and ends with the mark behind its body.
  have opens : run (s.reading table (.item (.clause arm.clause) :: (inner ++ (tail ++ rest)))
      (.conditional switch false :: outer)) =
      run (s.reading (table.push none) queue (.conditional begun child :: around :: outer)) :=
    run_open_arm selects single fresh queued
  have closes : run (s.reading (Tree.nestedAll decl.isInterrupt (table.push none) arm.body).2
        (.item (.scopeEnd mark) :: (tail ++ rest))
        ((Frame.conditional begun false).add stmts :: around :: outer)) =
      run (s.reading middle (tail ++ rest) (.conditional taken false :: outer)) :=
    run_close_arm rfl (current_body decl table arm.body) plain.2 rfl
  -- The scope left behind the arm is one in which the others can be read.
  have within : table.Within _ middle :=
    (Tree.nestedAll_within decl.isInterrupt (table.push_ne_global none) arm.body).leave
  have readyRest : Ready decl middle (.conditional taken false :: outer) (.arms arms) :=
    ready.behind within rfl fun simple mem => List.mem_append_right _ mem
  have selectsRest : taken.isSwitch ∧ taken.depth = 1 := by
    cases isDefault : arm.isDefault <;>
      simp [taken, addBlock, armed, isDefault, Conditional.isSwitch, single] at selects ⊢
    exact selects
  have goesOn := readsRest (s := s) readyRest selectsRest.1 selectsRest.2 countRest follows
  rw [withArms_cons] at goesOn
  rw [Tree.nestedArms, List.cons_append, List.cons_append, List.append_assoc]
  exact opens.trans (passed.trans (closes.trans goesOn))

/-- The blocks of arms are closed. -/
theorem nestedArms_isOpen (interrupt : Bool) (table : ScopeTable) (arms : List (Arm Tree)) :
    ∀ block ∈ (Tree.nestedArms interrupt table arms).1, block.isOpen = false := by
  -- Arm by arm, each with the table that the one before it leaves.
  induction arms generalizing table with
  | nil => simp [Tree.nestedArms]
  | cons arm arms ih =>
    intro block mem
    rw [Tree.nestedArms] at mem
    rcases List.mem_cons.1 mem with rfl | mem
    · rfl
    · exact ih _ block mem

/-- Closing a switch closes its own block only when no arm stands behind it. -/
theorem closed_withArms (interrupt : Bool) (table : ScopeTable) (arms : List (Arm Tree))
    (register : Register) (pos : Pos) (ns : Namespace) :
    closed (withArms (opened (.ofClause ⟨.switchOn register, pos⟩ ns)) arms
        (Tree.nestedArms interrupt table arms).1) =
      { form := if arms.any Arm.isDefault then .switchDefault else .switch
        first := ⟨⟨.switchOn register, pos⟩, [], !arms.isEmpty⟩
        others := (Tree.nestedArms interrupt table arms).1, ns } := by
  -- The last block is closed, which is that of the switch only if there is no arm.
  have shut := nestedArms_isOpen interrupt table arms
  cases arms with
  | nil => rfl
  | cons arm arms =>
    -- It is that of an arm, and closed already.
    generalize blocksEq : (Tree.nestedArms interrupt table (arm :: arms)).1 = blocks at shut ⊢
    obtain ⟨front, last, rfl⟩ : ∃ front last, blocks = front ++ [last] := by
      rcases blocks.eq_nil_or_concat with rfl | ⟨front, last, whole⟩
      · simp [Tree.nestedArms] at blocksEq
      · exact ⟨front, last, by simpa using whole⟩
    have lastShut : { last with isOpen := false } = last := by
      have isOpen := shut last (by simp)
      cases last
      cases isOpen
      rfl
    simp [closed, withArms, opened, Conditional.ofClause, Conditional.modifyCurrent, lastShut,
      Clause.form]

/-- A switch is read when its arms are. -/
theorem reads_switch {register : Register} {pos begins ends : Pos} {arms : List (Arm Tree)}
    (reads : ReadsArms decl arms inner) (single : (arms.filter Arm.isDefault).length ≤ 1) :
    ReadsTree decl (.switch register pos arms)
      (.item (.clause ⟨.switchOn register, pos⟩) :: .item (.scopeBegin begins) :: inner ++
        [.item (.scopeEnd ends)]) hangs := by
  intro s table rest frame outer ready accepts free follows
  -- The switch opens with no default, and so it takes one.
  let begun : Conditional Stmt := opened (.ofClause ⟨.switchOn register, pos⟩ table.current)
  have readyArms : Ready decl (table.push none) (.conditional begun false :: frame :: outer)
      (.arms arms) :=
    ready.push rfl fun simple mem => mem
  have fills := reads (s := s) readyArms rfl rfl single (follows_scopeEnd true ends rest)
  have current := (Tree.nestedArms_within decl.isInterrupt (table.push_ne_global none) arms).current
  -- The body of a switch is in braces, and no arm makes anything else of it.
  have opens : run (s.reading table (.item (.clause ⟨.switchOn register, pos⟩) ::
        .item (.scopeBegin begins) :: (inner ++ (.item (.scopeEnd ends) :: rest)))
        (frame :: outer)) =
      run (s.reading (table.push none) (inner ++ (.item (.scopeEnd ends) :: rest))
        (.conditional begun false :: frame :: outer)) :=
    run_open rfl rfl
  -- All arms in one conditional, which is a switch with a default or without.
  let selecting :=
    withArms begun arms (Tree.nestedArms decl.isInterrupt (table.push none) arms).1
  have form : selecting.form = .switchDefault ∨ selecting.form = .switch := by
    have either : selecting.form = if arms.any Arm.isDefault then .switchDefault else .switch := rfl
    split at either
    · exact .inl either
    · exact .inr either
  have plain : selecting.form ≠ .doWhile ∧ selecting.form ≠ .case ∧ selecting.form ≠ .default := by
    rcases form with form | form <;> simp [form]
  have ended : selecting.form = .ifThen → startsElse rest = false := by
    rcases form with form | form <;> simp [form]
  -- The brace at the end closes the switch.
  have closes : run (s.reading (Tree.nestedArms decl.isInterrupt (table.push none) arms).2
        (.item (.scopeEnd ends) :: rest) (.conditional selecting false :: frame :: outer)) =
      run (s.reading
        ((Tree.nestedArms decl.isInterrupt (table.push none) arms).2.leave table.current)
        (frame.marks ends ++ rest)
        (frame.rested.add [.conditional (closed selecting)] :: outer)) :=
    run_close accepts rfl current plain ended
  rw [closed_withArms] at closes
  refine ⟨ends, ?_⟩
  rw [Tree.nested, List.cons_append, List.cons_append, List.cons_append, List.cons_append,
    List.append_assoc]
  exact opens.trans (fills.trans closes)

/-- What is written as a part is read as the part, by induction on how it is written. -/
theorem reads_of_writes {part : Part} (writes : Writes part inner hangs) :
    Reads decl part inner hangs := by
  -- Each way of writing a part has a lemma of its own above.
  induction writes with
  | simple simple => exact reads_simple simple
  | block _ reads => exact reads_block reads
  | ifThen _ reads => exact reads_ifThen reads
  | ifElse _ _ reads readsElse => exact reads_ifElse reads readsElse
  | whileLoop _ reads => exact reads_whileLoop reads
  | doWhile _ reads => exact reads_doWhile reads
  | forever _ reads => exact reads_forever reads
  | switch _ single reads => exact reads_switch reads single
  | nil =>
    intro s table rest frame outer ready accepts free follows
    rw [Tree.nestedAll, Frame.add_nil, List.nil_append]
  | cons _ writesRest readsFirst readsRest =>
    exact reads_cons readsFirst readsRest fun follows => follows_list writesRest follows
  | braced _ reads => exact reads_braced reads
  | alone alone writes reads => exact reads_alone alone writes reads
  | noArm => exact reads_noArm
  | arm _ writesRest reads readsRest =>
    exact reads_arm reads readsRest fun follows => follows_arms writesRest follows

end Parts

end Nesting

end CrossAsm
