import CrossAsm.Proofs.Nesting.Inversion

/-! Whole functions: from the opening of a function to its end, the flat statements of its body give
back the body, and braces that may be left out make no difference. -/

namespace CrossAsm

/-- What a function is defined as: an inline one with its statements, for its calls. -/
def FunctionDecl.symbol (decl : FunctionDecl) (body : List Stmt) : Symbol :=
  .function { decl, body := if decl.isInline then body else [], entry := none }

/-- The flat statements of a function around those of its body. -/
def FunctionDecl.written (decl : FunctionDecl) (begins ends : Pos) (inner : List Stmt) : List Stmt :=
  .item (.functionDecl decl) :: .item (.scopeBegin begins) :: (inner ++ [.item (.scopeEnd ends)])

/-- Whether trees may be the body of a function: an inline function does not return, and no global name
is given to the entry of a subroutine and to something else. -/
structure Tree.Fits (decl : FunctionDecl) (table : ScopeTable) (body : List Tree) : Prop where
  /-- A return stands in a function that is not inline. -/
  returns : ∀ ret, .ret ret ∈ Tree.simplesAll body → decl.isInline = false
  /-- No label of the body clashes with a symbol there is. -/
  labels : ∀ label, .label label ∈ Tree.simplesAll body → ∀ existing,
    Entries.get? (.global, label.name) table.symbols = some existing →
    Nesting.clashes existing (.label label) = false
  /-- Nor does the function. -/
  own : ∀ existing, Entries.get? (.global, decl.name) table.symbols = some existing →
    Nesting.clashes existing (decl.symbol []) = false
  /-- The function does not clash with a label of its body. -/
  apart : ∀ label, .label label ∈ Tree.simplesAll body → label.name = decl.name →
    Nesting.clashes (.label label) (decl.symbol []) = false

/-- What a function is nested to, and the table behind it. -/
def FunctionDecl.nested (decl : FunctionDecl) (table : ScopeTable) (body : List Tree) :
    Function Stmt × ScopeTable :=
  let (stmts, inner) := Tree.nestedAll decl.isInterrupt (table.push (some decl.name)) body
  ({ decl, body := stmts, ns := table.current.child decl.name },
    (inner.leave table.current).define (decl.symbol stmts) .global)

namespace Nesting

variable {s : Nesting} {table : ScopeTable} {decl : FunctionDecl} {body : List Tree}
  {queue : List Stmt}

/-- Outside of all containers the mark behind its head opens a function. -/
theorem run_function (closed : s.bare = []) (begins : Pos) :
    run (s.reading table (.item (.functionDecl decl) :: .item (.scopeBegin begins) :: queue) []) =
      run (s.reading (table.push (some decl.name)) queue
        [.function { decl, ns := table.current.child decl.name } 1]) := by
  -- Nothing is open around the function.
  refine run_reading ?_
  show (if !([] : List Frame).isEmpty || !s.bare.isEmpty then _ else _ : NestingStep Unit) _ = _
  rw [closed]
  rfl

/-- The function is finished at its end, if its name is free. -/
theorem run_closeFunction {func : Function Stmt} {ns : Namespace} {name : String}
    (inside : table.current = ns.child name)
    (free : ∀ existing, Entries.get? (.global, func.decl.name) table.symbols = some existing →
      clashes existing (func.decl.symbol func.body) = false) (ends : Pos) :
    run (s.reading table (.item (.scopeEnd ends) :: queue) [.function func 1]) =
      run ({ s with output := s.output ++ [Stmt.function func] }.reading
        ((table.leave ns).define (func.decl.symbol func.body) .global) queue []) := by
  -- The scope is left, the name claimed and the function defined and put out.
  have popped : popScope (s.reading table queue [.function func 1]) =
      .ok () (s.reading (table.leave ns) queue [.function func 1]) :=
    popScope_reading inside
  have claimed : claimGlobal (func.decl.symbol func.body) func.decl.pos
      (s.reading (table.leave ns) queue []) = .ok () (s.reading (table.leave ns) queue []) := by
    refine claimGlobal_reading ?_ _
    exact free
  refine run_reading ?_
  show (popScope >>= fun _ => setFrames [] >>= fun _ => finishFunction func ends :
    NestingStep Unit) _ = _
  refine bind_eq_ok.2 ⟨(), _, popped, ?_⟩
  refine bind_eq_ok.2 ⟨(), s.reading (table.leave ns) queue [], rfl, ?_⟩
  exact bind_eq_ok.2 ⟨(), _, claimed, rfl⟩

/-- With nothing left to read and nothing open, what is done is the result. -/
theorem run_done (closed : s.bare = []) :
    run (s.reading table [] []) = .ok s.output (s.reading table [] []) := by
  -- The check at the end finds nothing open.
  have shut : checkClosed (s.reading table [] []) = .ok () (s.reading table [] []) := by
    have bare : (s.reading table [] []).bare = [] := closed
    rw [checkClosed, get_bind, bare]
    rfl
  rw [run]
  split
  · rw [shut]
    rfl
  · rename_i queued
    cases queued

/-- The body of a function may be read once the function is open. -/
theorem ready_function (fits : Tree.Fits decl table body) (func : Function Stmt)
    (same : func.decl = decl) :
    Ready decl (table.push (some decl.name)) [.function func 1] (.list body) := by
  -- What is asked of labels and returns is what fitting says of them.
  subst same
  refine ⟨rfl, table.push_ne_global _, fun simple mem => ?_⟩
  cases simple with
  | label label => exact fits.labels label mem
  | ret ret => exact fits.returns ret mem
  | _ => trivial

/-- Behind the body the name of the function is still free. -/
theorem free_function (fits : Tree.Fits decl table body) {later : ScopeTable}
    (within : (table.push (some decl.name)).Within (Tree.simplesAll body) later)
    (stmts : List Stmt) (existing : Symbol)
    (found : Entries.get? (.global, decl.name) later.symbols = some existing) :
    clashes existing (decl.symbol stmts) = false := by
  -- It was free before, and so it is unless a label of the body has taken it.
  rcases within.global decl.name with same | ⟨label, mem, named, here⟩
  · exact fits.own existing (same ▸ found)
  · rw [here] at found
    cases found
    exact fits.apart label mem named

/-- A function is read, whichever way its body is written, and reading goes on behind it. -/
theorem run_written {inner : List Stmt} {hangs : Bool} (closed : s.bare = [])
    (fits : Tree.Fits decl table body) (writes : Writes (.list body) inner hangs)
    (begins ends : Pos) (rest : List Stmt) :
    run (s.reading table (decl.written begins ends inner ++ rest) []) =
      run ({ s with output := s.output ++ [Stmt.function (decl.nested table body).1] }.reading
        (decl.nested table body).2 rest []) := by
  let begun : Function Stmt := { decl, ns := table.current.child decl.name }
  let stmts := (Tree.nestedAll decl.isInterrupt (table.push (some decl.name)) body).1
  let later := (Tree.nestedAll decl.isInterrupt (table.push (some decl.name)) body).2
  have within : (table.push (some decl.name)).Within (Tree.simplesAll body) later :=
    Tree.nestedAll_within decl.isInterrupt (table.push_ne_global _) body
  -- The function is opened, its body fills it, and its end finishes it.
  have opens : run (s.reading table (decl.written begins ends inner ++ rest) []) =
      run (s.reading (table.push (some decl.name)) (inner ++ (.item (.scopeEnd ends) :: rest))
        [.function begun 1]) := by
    rw [FunctionDecl.written, List.cons_append, List.cons_append, List.append_assoc]
    exact run_function closed begins
  have reads : ReadsList decl body inner := reads_of_writes writes
  have fills : run (s.reading (table.push (some decl.name))
        (inner ++ (.item (.scopeEnd ends) :: rest)) [.function begun 1]) =
      run (s.reading later (.item (.scopeEnd ends) :: rest)
        [.function { begun with body := stmts } 1]) :=
    reads (ready_function fits begun rfl) (Nat.le_refl 1) rfl (follows_scopeEnd true ends rest)
  exact opens.trans (fills.trans
    (run_closeFunction within.current (free_function fits within stmts) ends))

/-- So is a function that is all there is. -/
theorem nest_written {session : Session} {inner : List Stmt} {hangs : Bool}
    (fits : Tree.Fits decl session.scopes body) (writes : Writes (.list body) inner hangs)
    (begins ends : Pos) :
    nest (decl.written begins ends inner) session =
      .ok [.function (decl.nested session.scopes body).1]
        { session with scopes := (decl.nested session.scopes body).2 } := by
  -- The function is read with nothing behind it, where reading is done.
  let s : Nesting := { session, queue := decl.written begins ends inner }
  have reads := run_written (s := s) rfl fits writes begins ends []
  rw [List.append_nil] at reads
  have whole : run s = .ok [.function (decl.nested session.scopes body).1] _ :=
    reads.trans (run_done rfl)
  rw [nest, whole]
  rfl

end Nesting

/-- A function is nested to the trees of its body whichever way these are written, and so is any other
writing of them: neither the statements nor the symbols depend on the braces. -/
theorem nest_function_written {decl : FunctionDecl} {body : List Tree} {session : Session}
    (fits : Tree.Fits decl session.scopes body) {inner inner' : List Stmt} {hangs hangs' : Bool}
    (writes : Writes (.list body) inner hangs) (writes' : Writes (.list body) inner' hangs')
    (begins ends begins' ends' : Pos) :
    nest (decl.written begins ends inner) session =
        .ok [.function (decl.nested session.scopes body).1]
          { session with scopes := (decl.nested session.scopes body).2 } ∧
      nest (decl.written begins' ends' inner') session =
        nest (decl.written begins ends inner) session := by
  -- What a function is nested to does not mention how its body was written.
  have first := Nesting.nest_written fits writes begins ends
  have second := Nesting.nest_written fits writes' begins' ends'
  exact ⟨first, second.trans first.symm⟩

/-- A near test of a condition. -/
def Condition.near (condition : Condition) : Test :=
  ⟨.near, .is, condition⟩

/-- A loop whose body is a loop. -/
def pollingLoop : Tree :=
  .doWhile default
    [.whileLoop Condition.carry.near default [.simple (.label ⟨"again", default⟩)]]
    Condition.minus.near default

/-- The loop without braces. -/
def pollingLoopWritten : List Stmt :=
  [.item (.clause ⟨.doBlock, default⟩),
    .item (.clause ⟨.whileTest Condition.carry.near, default⟩), .item (.label ⟨"again", default⟩),
    .item (.clause ⟨.whileTest Condition.minus.near, default⟩)]

/-- A case. -/
def pollingCase : Arm Tree :=
  ⟨some (.number 1), default, [.simple (.label ⟨"found", default⟩)]⟩

/-- A default arm that ends in an `if`. -/
def pollingDefault : Arm Tree :=
  ⟨none, default, [.ifThen Condition.plus.near default [.simple (.ret ⟨false, default⟩)]]⟩

/-- A switch with the two arms. -/
def pollingSwitch : Tree :=
  .switch .a default [pollingCase, pollingDefault]

/-- The switch with its own braces only. -/
def pollingSwitchWritten : List Stmt :=
  [.item (.clause ⟨.switchOn .a, default⟩), .item (.scopeBegin default),
    .item (.clause ⟨.caseOf (.number 1), default⟩), .item (.label ⟨"found", default⟩),
    .item (.clause ⟨.byDefault, default⟩), .item (.clause ⟨.ifTest Condition.plus.near, default⟩),
    .item (.ret ⟨false, default⟩), .item (.scopeEnd default)]

/-- The loop or the switch. -/
def polling : List Tree :=
  [.ifElse Condition.zero.near default [pollingLoop] default [pollingSwitch]]

/-- Either branch between given marks. -/
def pollingWritten (begins ends : List Stmt) : List Stmt :=
  .item (.clause ⟨.ifTest Condition.zero.near, default⟩) :: (begins ++ pollingLoopWritten ++ ends) ++
    .item (.clause ⟨.otherwise, default⟩) :: (begins ++ pollingSwitchWritten ++ ends)

/-- With braces around the branches and without, the function is the same in a new session. -/
theorem polling_nested :
    let main : FunctionDecl := ⟨"main", .subroutine, false, [], default⟩
    let session : Session := { cpu := .nmos }
    let terse := pollingWritten [] []
    let braced := pollingWritten [.item (.scopeBegin default)] [.item (.scopeEnd default)]
    Tree.Fits main session.scopes polling ∧ Writes (.list polling) terse false ∧
      Writes (.list polling) braced false ∧
      nest (main.written default default terse) session =
        .ok [.function (main.nested session.scopes polling).1]
          { session with scopes := (main.nested session.scopes polling).2 } ∧
      nest (main.written default default braced) session =
        nest (main.written default default terse) session := by
  -- The tree fits the function, and both ways of writing it are derived.
  intro main session terse braced
  have fits : Tree.Fits main session.scopes polling := by
    refine ⟨fun _ _ => rfl, fun _ _ _ found => ?_, fun _ found => ?_, fun label mem named => ?_⟩
    · cases found
    · cases found
    -- Its labels are not named like the function.
    have either : label = ⟨"again", default⟩ ∨ label = ⟨"found", default⟩ := by
      simpa [polling, pollingLoop, pollingSwitch, pollingCase, pollingDefault, Tree.simplesAll,
        Tree.simples, Tree.simplesArms] using mem
    rcases either with rfl | rfl <;> simp [main] at named
  -- The body of the first branch.
  have loop : Writes (.tree pollingLoop) pollingLoopWritten false :=
    .doWhile (.alone rfl (.whileLoop (.alone rfl (.simple _))))
  -- The two arms of the other one.
  have first : Writes (.body pollingCase.body) [.item (.label ⟨"found", default⟩)] false :=
    .alone rfl (.simple _)
  have second : Writes (.body pollingDefault.body)
      [.item (.clause ⟨.ifTest Condition.plus.near, default⟩), .item (.ret ⟨false, default⟩)] true :=
    .alone rfl (.ifThen (.alone rfl (.simple _)))
  have select : Writes (.tree pollingSwitch) pollingSwitchWritten false :=
    .switch (.arm first (.arm second .noArm)) (by decide)
  have single {t : Tree} {inner : List Stmt} (writes : Writes (.tree t) inner false) :
      Writes (.list [t]) inner false := by
    simpa using Writes.cons writes .nil
  -- Both branches are written without braces, and then with them.
  have writesTerse : Writes (.list polling) terse false :=
    single (.ifElse (.alone rfl loop) (.alone rfl select))
  have writesBraced : Writes (.list polling) braced false :=
    single (.ifElse (.braced (single loop)) (.braced (single select)))
  exact ⟨fits, writesTerse, writesBraced,
    nest_function_written fits writesTerse writesBraced default default default default⟩

end CrossAsm
