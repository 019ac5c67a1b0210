import CrossAsm.Session
import CrossAsm.Total

/-! How one statement of a flat stream is folded into the functions and conditionals around it.
Blocks with and without braces end up in the same shape. -/

namespace CrossAsm

/-- A container that is being filled. -/
inductive Frame where
  | function (func : Function Stmt) (depth : Nat)
  /-- With `oneLine` its block was opened by a conditional without braces, and is closed as soon as
  that conditional is. -/
  | conditional (cond : Conditional Stmt) (oneLine : Bool)

namespace Frame

/-- Where a container starts. -/
def pos : Frame → Pos
  | .function func _ => func.decl.pos
  | .conditional cond _ => cond.pos

/-- How many marks a container waits for: one if its block closes with its only statement. -/
def waiting : Frame → Nat
  | .function .. => 0
  | .conditional _ oneLine => oneLine.toNat

/-- The head of a function that is being filled. -/
def decl? : Frame → Option FunctionDecl
  | .function func _ => some func.decl
  | .conditional .. => none

end Frame

/-- The state of folding. -/
structure Nesting where
  /-- The session, whose scopes follow the blocks. -/
  session : Session
  /-- The statements still to be read. -/
  queue : List Stmt
  /-- The containers being filled, the innermost first. -/
  frames : List Frame := []
  /-- The blocks outside of any container, the innermost first. -/
  bare : List Pos := []
  /-- The statements that are done. -/
  output : List Stmt := []

/-- A step of folding. -/
abbrev NestingStep : Type → Type := EStateM Error Nesting

namespace Nesting

/-- How much reading a statement can put back: the block of a clause without braces is closed by a
mark of its own. -/
def readingWeight : Stmt → Nat
  | .item (.clause _) => 4
  | _ => 1

/-- How much is left to read. -/
def weight (state : Nesting) : Nat :=
  total (state.queue.map readingWeight) + 2 * total (state.frames.map Frame.waiting)

/-- The namespace of the open scope. -/
def currentNs : NestingStep Namespace := do
  return (← get).session.scopes.current

/-- Changes the scope table. -/
def modifyScopes (f : ScopeTable → ScopeTable) : NestingStep Unit :=
  modify fun state =>
    { state with session := { state.session with scopes := f state.session.scopes } }

/-- Leaves the open scope. -/
def popScope : NestingStep Unit := do
  match (← get).session.scopes.pop with
  | .ok (_, scopes) => modifyScopes fun _ => scopes
  | .error e => throw e

/-- Puts a statement at the head of those to be read. -/
def pushFront (stmt : Stmt) : NestingStep Unit :=
  modify fun state => { state with queue := stmt :: state.queue }

/-- Sets the statements still to be read. -/
def setQueue (queue : List Stmt) : NestingStep Unit :=
  modify fun state => { state with queue }

/-- Sets the containers being filled. -/
def setFrames (frames : List Frame) : NestingStep Unit :=
  modify fun state => { state with frames }

/-- Adds a statement to the innermost container; a switch holds cases only. -/
def emit (stmt : Stmt) : NestingStep Unit := do
  match (← get).frames with
  | .function func depth :: rest =>
    setFrames (.function { func with body := func.body ++ [stmt] } depth :: rest)
  | .conditional cond oneLine :: rest =>
    -- The cases of a switch are handed over when they close, never emitted.
    if cond.isSwitch then
      throw (.statementInSwitch (stmt.pos?.getD cond.pos))
    else
      let cond := cond.modifyCurrent fun block => { block with body := block.body ++ [stmt] }
      setFrames (.conditional cond oneLine :: rest)
  | [] => modify fun state => { state with output := state.output ++ [stmt] }

/-- Whether a symbol is placed under its own name: as the entry of a subroutine, or as a label or
variable. Others are not placed. -/
def placedAsEntry : Symbol → Option Bool
  | .function func => some !func.decl.isInline
  | .label _ | .var _ => some false
  | .type _ => none

/-- Whether two global symbols of one name would share an entry. -/
def clashes (existing symbol : Symbol) : Bool :=
  match placedAsEntry existing, placedAsEntry symbol with
  | some a, some b => a != b
  | _, _ => false

/-- Fails if a symbol would share the name of a subroutine's entry. -/
def claimGlobal (symbol : Symbol) (pos : Pos) : NestingStep Unit := do
  match (← get).session.scopes.lookup? symbol.name .global with
  | some (_, existing) =>
    if clashes existing symbol then
      throw (.nameClash pos symbol.name)
    else
      return ()
  | none => return ()

/-- Fails if a symbol of the global namespace would share the name of a subroutine's entry. -/
def claimIn (ns : Namespace) (symbol : Symbol) (pos : Pos) : NestingStep Unit :=
  if ns = .global then claimGlobal symbol pos else return ()

/-- Fails if a container or block is open. -/
def checkClosed : NestingStep Unit := do
  -- The outermost container is the one reported, and all that are open are counted.
  let state ← get
  let count := state.frames.length + state.bare.length
  match state.frames.getLast?, state.bare.getLast? with
  | some frame, _ => throw (.unclosedBlock frame.pos count)
  | none, some pos => throw (.unclosedBlock pos count)
  | none, none => return ()

/-- Closes the block that was opened for a statement without braces. -/
def cascade (pos : Pos) : NestingStep Unit := do
  match (← get).frames with
  | .conditional cond true :: rest =>
    -- The mark goes back to the front, so the block closes before anything else is read.
    setFrames (.conditional cond false :: rest)
    pushFront (.item (.scopeEnd pos))
  | _ => return ()

/-- Opens a function. -/
def openFunction (decl : FunctionDecl) : NestingStep Unit := do
  let state ← get
  if !state.frames.isEmpty || !state.bare.isEmpty then
    throw (.nestedFunction decl.pos decl.name)
  else
    match state.queue with
    | .item (.scopeBegin _) :: rest =>
      setQueue rest
      setFrames [.function { decl, ns := state.session.scopes.current.child decl.name } 1]
      modifyScopes (·.push (some decl.name))
    | _ => throw (.functionWithoutBlock decl.pos decl.name)

/-- Whether a statement may stand alone as the block of a clause. -/
def standsAlone : Stmt → Bool
  | .item (.instruction _) | .item (.call _) | .item (.ret _) | .item (.var _)
  | .item (.label _) => true
  | _ => false

/-- The statements after a clause, with the end of its block marked. A block in braces has its end
mark already, and so has a conditional as a block; a single statement gets one behind it and its
initializer. With the statements comes whether a conditional is the block. -/
def openQueue (pos : Pos) : List Stmt → Option (List Stmt × Bool)
  | .item (.scopeBegin _) :: rest => some (rest, false)
  | .item (.clause inner) :: rest =>
    if inner.kind = .otherwise then none else some (.item (.clause inner) :: rest, true)
  | .item (.var var) :: .item (.initializer init) :: rest =>
    some (.item (.var var) :: .item (.initializer init) :: .item (.scopeEnd pos) :: rest, false)
  | stmt :: rest =>
    if standsAlone stmt then some (stmt :: .item (.scopeEnd pos) :: rest, false) else none
  | [] => none

/-- Opens the last block of a conditional, whichever way it is written, inside the given
containers. -/
def openBlock (cond : Conditional Stmt) (oneLine : Bool) (outer : List Frame) :
    NestingStep Unit := do
  -- The scope is open even if no statement follows the clause.
  modifyScopes (·.push none)
  let state ← get
  let cond := { cond with depth := 1 }.modifyCurrent fun block => { block with isOpen := true }
  let clause := cond.current.clause
  match openQueue clause.pos state.queue with
  | some (queue, childOnly) =>
    setQueue queue
    setFrames (.conditional cond (oneLine || childOnly) :: outer)
  | none => throw (.missingStatement clause.pos clause.render)

/-- Adds a block to a conditional. -/
def addBlock (cond : Conditional Stmt) (block : Block Stmt) : Conditional Stmt :=
  { cond with others := cond.others ++ [block] }

/-- Opens the block of a clause: an `else` continues the `if` before it, a case belongs to the
switch around it, and any other clause starts a conditional. -/
def openClause (clause : Clause) : NestingStep Unit := do
  let state ← get
  let ns := state.session.scopes.current
  let frames := state.frames
  match clause.kind with
  | .otherwise =>
    match frames with
    | .conditional cond oneLine :: outer =>
      -- A closed `if` waits in place only while an `else` follows it.
      if cond.form = .ifThen ∧ cond.depth = 0 then
        openBlock (addBlock { cond with form := .ifElse } { clause }) oneLine outer
      else
        throw (.elseWithoutIf clause.pos)
    | _ => throw (.elseWithoutIf clause.pos)
  | .caseOf _ =>
    match frames with
    | .conditional cond _ :: _ =>
      if cond.isSwitch ∧ cond.depth = 1 then
        openBlock (.ofClause clause ns) false frames
      else
        throw (.caseOutsideSwitch clause.pos clause.render)
    | _ => throw (.caseOutsideSwitch clause.pos clause.render)
  | .byDefault =>
    match frames with
    | .conditional cond oneLine :: outer =>
      if cond.isSwitch ∧ cond.depth = 1 then
        if cond.form = .switchDefault then
          throw (.duplicateDefault clause.pos)
        else
          openBlock (.ofClause clause ns) false
            (.conditional { cond with form := .switchDefault } oneLine :: outer)
      else
        throw (.caseOutsideSwitch clause.pos clause.render)
    | _ => throw (.caseOutsideSwitch clause.pos clause.render)
  | _ => openBlock (.ofClause clause ns) false frames

/-- Counts a block that no clause governs, in the innermost container or outside of all. -/
def deepen (pos : Pos) : NestingStep Unit := do
  match (← get).frames with
  | .function func depth :: rest => setFrames (.function func (depth + 1) :: rest)
  | .conditional cond oneLine :: rest =>
    setFrames (.conditional { cond with depth := cond.depth + 1 } oneLine :: rest)
  | [] => modify fun state => { state with bare := pos :: state.bare }

/-- Opens a block that no clause governs. -/
def openBare (pos : Pos) : NestingStep Unit := do
  deepen pos
  modifyScopes (·.push none)
  emit (.item (.scopeBegin pos))

/-- Finishes a function: defines it, with its statements if they are spliced in at its calls. -/
def finishFunction (func : Function Stmt) (pos : Pos) : NestingStep Unit := do
  -- Only a function that is spliced in needs its statements again.
  let body := if func.decl.isInline then func.body else []
  let symbol : Symbol := .function { decl := func.decl, body, entry := none }
  claimGlobal symbol func.decl.pos
  modifyScopes (·.define symbol .global)
  emit (.function func)
  cascade pos

/-- Finishes a conditional. -/
def finishConditional (cond : Conditional Stmt) (pos : Pos) : NestingStep Unit := do
  emit (.conditional cond)
  cascade pos

/-- Hands the block of a case to its switch. -/
def attachCase (cond : Conditional Stmt) (pos : Pos) : NestingStep Unit := do
  if !cond.others.isEmpty then
    throw (.malformedCase cond.pos cond.form.name)
  else
    match (← get).frames with
    | .conditional switch oneLine :: rest =>
      setFrames (.conditional (addBlock switch cond.first) oneLine :: rest)
      cascade pos
    | _ => throw (.caseOutsideSwitch cond.pos cond.form.name)

/-- Closes the last block of a conditional, which may go on with an `else` or a trailing test. -/
def closeConditional (cond : Conditional Stmt) (oneLine : Bool) (outer : List Frame) (pos : Pos) :
    NestingStep Unit := do
  let state ← get
  let cond := cond.modifyCurrent fun block => { block with isOpen := false }
  match cond.form, state.queue with
  | .ifThen, .item (.clause ⟨.otherwise, _⟩) :: _ =>
    setFrames (.conditional cond oneLine :: outer)
  | .doWhile, .item (.clause ⟨.whileTest test, _⟩) :: rest =>
    -- The clause behind the block is its trailing test and opens no block of its own.
    setQueue rest
    setFrames outer
    finishConditional { cond with post := some test } pos
  | .doWhile, _ => throw (.doWithoutWhile cond.pos)
  | .case, _ | .default, _ =>
    setFrames outer
    attachCase cond pos
  | _, _ =>
    setFrames outer
    finishConditional cond pos

/-- Closes the innermost block. -/
def close (pos : Pos) : NestingStep Unit := do
  let state ← get
  match state.frames with
  | [] =>
    match state.bare with
    | [] => throw (.unmatchedClose pos)
    | _ :: rest =>
      modify fun state => { state with bare := rest }
      popScope
      emit (.item (.scopeEnd pos))
  | .function func depth :: outer =>
    popScope
    if 1 < depth then
      setFrames (.function func (depth - 1) :: outer)
      emit (.item (.scopeEnd pos))
    else
      setFrames outer
      finishFunction func pos
  | .conditional cond oneLine :: outer =>
    popScope
    -- A block inside the conditional's own block only counts down.
    let cond := { cond with depth := cond.depth - 1 }
    if 0 < cond.depth then
      setFrames (.conditional cond oneLine :: outer)
      emit (.item (.scopeEnd pos))
    else
      closeConditional cond oneLine outer pos

/-- A variable in the open scope. -/
def declareVariable (var : Variable) : NestingStep Unit := do
  let var := { var with ns := ← currentNs }
  claimIn var.ns (.var var) var.pos
  modifyScopes (·.define (.var var) var.ns)
  emit (.item (.var var))

/-- A variable, with the initializer that follows it. -/
def addVariable (var : Variable) : NestingStep Unit := do
  match (← get).queue with
  | .item (.initializer init) :: rest =>
    setQueue rest
    declareVariable { var with init := some init }
  | _ => declareVariable var

/-- A label, which is global wherever it stands. -/
def declareLabel (label : Label) : NestingStep Unit := do
  claimGlobal (.label label) label.pos
  modifyScopes (·.define (.label label) .global)
  emit (.item (.label label))

/-- A return, which must stand in a function that is not inline. -/
def addReturn (ret : Return) : NestingStep Unit := do
  match (← get).frames.findSome? Frame.decl? with
  | none => throw (.returnOutsideFunction ret.pos)
  | some decl =>
    if decl.isInline then
      throw (.returnInInline ret.pos decl.name)
    else
      emit (.item (.ret { ret with interrupt := decl.isInterrupt }))

/-- Reads one statement. -/
def step (stmt : Stmt) : NestingStep Unit := do
  match stmt with
  | .item (.functionDecl decl) => openFunction decl
  | .item (.clause clause) => openClause clause
  | .item (.scopeBegin pos) => openBare pos
  | .item (.scopeEnd pos) => close pos
  | .item (.var var) => addVariable var
  | .item (.initializer init) => throw (.strayInitializer init.pos)
  | .item (.label label) => declareLabel label
  | .item (.typeDecl decl) =>
    modifyScopes fun scopes => scopes.define (.type decl.type) scopes.current
  | .item (.ret ret) => addReturn ret
  | .item (.call call) => emit (.item (.call { call with ns := ← currentNs }))
  | .item (.instruction line) => emit (.item (.instruction { line with ns := ← currentNs }))
  | .item (.fileEnd name) =>
    checkClosed
    emit (.item (.fileEnd name))
  | .item (.fileBegin _) | .item (.directive ..) | .function _ | .conditional _ => emit stmt

end Nesting

end CrossAsm
