import CrossAsm.Proofs.Nesting.Functions
import CrossAsm.Proofs.Nesting.Respelled
import CrossAsm.Proofs.Nesting.Transitions
import CrossAsm.Proofs.Resolve.Following

/-! Nesting in two sessions: it looks neither at the processor nor at the values of statements, so
that statements whose values are spelled another way are nested in step with the others. -/

namespace CrossAsm

/-! ### Statements in front of a barrier -/

/-- Two lists of statements, into which nothing before them looks: both are empty, or start with the
same end of a block, or with the head of a function. -/
inductive Stmt.Barred : List Stmt → List Stmt → Prop
  | empty : Barred [] []
  | scopeEnd (pos : Pos) (rest rest' : List Stmt) :
    Barred (.item (.scopeEnd pos) :: rest) (.item (.scopeEnd pos) :: rest')
  | function (d d' : FunctionDecl) (rest rest' : List Stmt) :
    Barred (.item (.functionDecl d) :: rest) (.item (.functionDecl d') :: rest')

/-- A variable whose address and length are spelled as they are. -/
structure Variable.Anchored (r : Respelling) (var : Variable) : Prop where
  /-- The address is. -/
  address : var.address.map r.value = var.address
  /-- The length is. -/
  dim : var.dim.respelled r = var.dim

/-- A statement that declares no variable, or one whose address and length are spelled as they
are. -/
def Stmt.Anchored (r : Respelling) (stmt : Stmt) : Prop :=
  ∀ var, stmt = .item (.var var) → var.Anchored r

/-- Statements up to a barrier, and the same ones spelled another way. -/
inductive Stmt.Mirrored (r : Respelling) (tail tail' : List Stmt) : List Stmt → List Stmt → Prop
  | ended : Mirrored r tail tail' tail tail'
  | cons {stmt : Stmt} {rest rest' : List Stmt} (anchored : stmt.Anchored r)
    (others : Mirrored r tail tail' rest rest') :
    Mirrored r tail tail' (stmt :: rest) (stmt.respelled r :: rest')

/-- Statements are mirrored up to the barrier. -/
theorem Stmt.mirrored_append {r : Respelling} {stmts : List Stmt}
    (anchored : ∀ stmt ∈ stmts, stmt.Anchored r) (tail tail' : List Stmt) :
    Stmt.Mirrored r tail tail' (stmts ++ tail) (stmts.map (Stmt.respelled r) ++ tail') := by
  -- By induction on the statements in front of the barrier.
  induction stmts with
  | nil => exact .ended
  | cons stmt _ ih =>
    obtain ⟨here, rest⟩ := List.forall_mem_cons.1 anchored
    exact .cons here (ih rest)

/-- The barrier is not shorter than what is read up to it. -/
theorem Stmt.Mirrored.length_le {r : Respelling} {tail tail' queue queue' : List Stmt}
    (mirrored : Mirrored r tail tail' queue queue') : tail.length ≤ queue.length := by
  -- By induction: what stands in front of the barrier only makes it longer.
  induction mirrored with
  | ended => exact Nat.le_refl _
  | cons _ _ ih => exact Nat.le_succ_of_le ih

/-- Where nothing is left to be read there was no barrier. -/
theorem Stmt.Mirrored.eq_nil {r : Respelling} {tail tail' queue queue' : List Stmt}
    (mirrored : Mirrored r tail tail' queue queue') (empty : queue = []) : tail = [] := by
  -- It is no longer than nothing.
  have shorter := mirrored.length_le
  rw [empty] at shorter
  exact List.eq_nil_of_length_eq_zero (Nat.le_zero.1 shorter)

/-- The barrier is reached on both sides. -/
theorem Stmt.Mirrored.reached {r : Respelling} {tail tail' queue queue' : List Stmt}
    (mirrored : Mirrored r tail tail' queue queue') (reached : queue = tail) : queue' = tail' := by
  -- With a statement in front the queue would be longer than the barrier.
  cases mirrored with
  | ended => rfl
  | cons _ others =>
    have shorter := others.length_le
    rw [← reached, List.length_cons] at shorter
    omega

/-- Where nothing is spelled another way, every statement is mirrored. -/
theorem Stmt.mirrored_same (tail tail' stmts : List Stmt) :
    Stmt.Mirrored .same tail tail' (stmts ++ tail) (stmts ++ tail') := by
  -- Spelling as before changes no address and no length.
  have anchored : ∀ stmt ∈ stmts, stmt.Anchored .same := by
    intro stmt _ var _
    exact ⟨by rw [Respelling.same, Option.map_id_fun, id], var.dim.respelled_same⟩
  have mirrored := Stmt.mirrored_append anchored tail tail'
  rwa [Stmt.map_respelled_same] at mirrored

namespace Nesting

/-- Two states of folding: what is open is spelled another way in the second, what is declared
matches, what is done is kept, and the statements to be read are mirrored up to a barrier. -/
structure Mirrors (kept : Stmt → Stmt → Prop) (r : Respelling) (tail tail' : List Stmt)
    (s t : Nesting) : Prop where
  /-- The session follows. -/
  session : s.session.Follows t.session
  /-- The statements to be read are the same up to the barrier. -/
  queue : Stmt.Mirrored r tail tail' s.queue t.queue
  /-- The containers are spelled another way. -/
  frames : t.frames = s.frames.map (Frame.respelled r)
  /-- The same blocks are open outside of any container. -/
  bare : t.bare = s.bare
  /-- The statements that are done are kept as they should be. -/
  output : List.Forall₂ kept s.output t.output

/-- Nothing is spelled another way, and what is done may be kept as it is. -/
structure Verbatim (kept : Stmt → Stmt → Prop) (r : Respelling) : Prop where
  /-- Values are spelled as they are. -/
  same : r = .same
  /-- Every statement may be kept. -/
  keeps : ∀ stmt, kept stmt stmt

variable {kept : Stmt → Stmt → Prop} {r : Respelling} {tail tail' : List Stmt} {s t : Nesting}

namespace Mirrors

/-- Other containers. -/
theorem withFrames (mirrors : s.Mirrors kept r tail tail' t) (frames : List Frame) :
    Mirrors kept r tail tail' { s with frames }
      { t with frames := frames.map (Frame.respelled r) } :=
  ⟨mirrors.session, mirrors.queue, rfl, mirrors.bare, mirrors.output⟩

/-- Other statements to be read. -/
theorem withQueue (mirrors : s.Mirrors kept r tail tail' t) {queue queue' : List Stmt}
    (others : Stmt.Mirrored r tail tail' queue queue') :
    Mirrors kept r tail tail' { s with queue } { t with queue := queue' } :=
  ⟨mirrors.session, others, mirrors.frames, mirrors.bare, mirrors.output⟩

/-- Other symbols. -/
theorem withScopes (mirrors : s.Mirrors kept r tail tail' t) {a b : ScopeTable}
    (alike : a.Matches b) :
    Mirrors kept r tail tail' { s with session := { s.session with scopes := a } }
      { t with session := { t.session with scopes := b } } :=
  ⟨⟨mirrors.session.cpu, mirrors.session.labels, alike⟩, mirrors.queue, mirrors.frames,
    mirrors.bare, mirrors.output⟩

/-- The same scope is open. -/
theorem current (mirrors : s.Mirrors kept r tail tail' t) :
    t.session.scopes.current = s.session.scopes.current :=
  mirrors.session.scopes.current

end Mirrors

/-! ### Symbols -/

/-- A variable matches itself spelled another way. -/
theorem matches_respelled {var : Variable} (anchored : var.Anchored r) :
    var.Matches (var.respelled r) := by
  -- Its address, its length and the number of its values stay.
  rw [Variable.respelled, anchored.address, anchored.dim]
  refine ⟨rfl, ?_⟩
  obtain ⟨_, _, _, _, _, _ | init, _, _, _⟩ := var
  · rfl
  · exact congrArg some (init.count_respelled r)

/-- Matching symbols are placed alike. -/
theorem placedAsEntry_eq {a b : Symbol} (alike : a.Matches b) :
    placedAsEntry b = placedAsEntry a := by
  -- Only the kind of a function is asked, and that is the same.
  cases alike with
  | function alike => simp only [placedAsEntry, FunctionDecl.isInline, alike.kind]
  | var | label | type => rfl

/-- Leaving the open scope leaves all else. -/
theorem popScope_lockstep (alike : s.session.scopes.Matches t.session.scopes) :
    Lockstep (fun s' t' => ∃ a b : ScopeTable, a.Matches b ∧
        s' = { s with session := { s.session with scopes := a } } ∧
        t' = { t with session := { t.session with scopes := b } }) popScope popScope s t := by
  -- Scopes that match are left in the same way, or not at all.
  refine .read ?_
  cases popped : s.session.scopes.pop with
  | error e => exact .fail e
  | ok left =>
    obtain ⟨ns, table⟩ := left
    obtain ⟨table', popped', alike⟩ := alike.pop popped
    rw [popped']
    exact .changed ⟨table, table', alike, rfl, rfl⟩

/-- Leaving the open scope. -/
theorem popScope_mirrors (mirrors : s.Mirrors kept r tail tail' t) :
    Lockstep (Mirrors kept r tail tail') popScope popScope s t := by
  -- The scope tables leave their scopes alike.
  refine (popScope_lockstep mirrors.session.scopes).mono ?_
  rintro _ _ ⟨a, b, alike, rfl, rfl⟩
  exact mirrors.withScopes alike

/-- Claiming a global name. -/
theorem claimGlobal_mirrors (mirrors : s.Mirrors kept r tail tail' t) {a b : Symbol}
    (alike : a.Matches b) (pos : Pos) :
    Lockstep (fun s' t' => s' = s ∧ t' = t) (claimGlobal a pos) (claimGlobal b pos) s t := by
  -- Both tables have the name or neither has.
  refine .read ?_
  have found := mirrors.session.scopes.lookup? a.name .global
  rw [alike.name]
  generalize s.session.scopes.lookup? a.name .global = x at found ⊢
  generalize t.session.scopes.lookup? a.name .global = y at found ⊢
  cases found with
  | none => exact .done ⟨rfl, rfl⟩
  | @some x y fits =>
    -- Both symbols are placed alike, so they clash or do not.
    have same : clashes y.2 b = clashes x.2 a := by
      rw [clashes, clashes, placedAsEntry_eq fits.2, placedAsEntry_eq alike]
    simp only [same]
    split
    · exact .fail _
    · exact .done ⟨rfl, rfl⟩

/-- Claiming a name, if it is global. -/
theorem claimIn_mirrors (mirrors : s.Mirrors kept r tail tail' t) (ns : Namespace) {a b : Symbol}
    (alike : a.Matches b) (pos : Pos) :
    Lockstep (fun s' t' => s' = s ∧ t' = t) (claimIn ns a pos) (claimIn ns b pos) s t := by
  -- The scope is global on both sides or on none.
  unfold claimIn
  split
  · exact claimGlobal_mirrors mirrors alike pos
  · exact .done ⟨rfl, rfl⟩

/-! ### Statements -/

/-- A statement is put out where nothing is around it. -/
theorem emit_outside (mirrors : s.Mirrors kept r tail tail' t) (outside : s.frames = [])
    {stmt stmt' : Stmt} (keeps : kept stmt stmt') :
    Lockstep (Mirrors kept r tail tail') (emit stmt) (emit stmt') s t := by
  -- The statement comes to the output on both sides.
  have outside' : t.frames = [] := by rw [mirrors.frames, outside, List.map_nil]
  refine .read ?_
  rw [outside, outside']
  exact .changed ⟨mirrors.session, mirrors.queue, mirrors.frames, mirrors.bare,
    List.rel_append mirrors.output (.cons keeps .nil)⟩

/-- A statement is put into a container. -/
theorem emit_mirrors (mirrors : s.Mirrors kept r tail tail' t)
    (inside : Verbatim kept r ∨ s.frames ≠ []) (stmt : Stmt) :
    Lockstep (Mirrors kept r tail tail') (emit stmt) (emit (stmt.respelled r)) s t := by
  -- The innermost container is of the same kind on both sides.
  cases here : s.frames with
  | nil =>
    -- Outside of all containers nothing is spelled another way.
    obtain ⟨rfl, keeps⟩ := inside.resolve_right fun more => more here
    rw [Stmt.respelled_same]
    exact emit_outside mirrors here (keeps stmt)
  | cons frame outer =>
    refine .read ?_
    rw [mirrors.frames, here]
    cases frame with
    | function func depth =>
      -- The body of the function grows.
      have same : (Frame.function { func with body := func.body ++ [stmt] } depth :: outer).map
          (Frame.respelled r) = .function { func.respelled r with
            body := (func.respelled r).body ++ [stmt.respelled r] } depth ::
              outer.map (Frame.respelled r) := by
        simp [Frame.respelled, Function.respelled]
      refine .changed ?_
      rw [← same]
      exact mirrors.withFrames _
    | conditional cond oneLine =>
      -- The last block of the conditional grows, unless it is a switch.
      simp only [List.map_cons, Frame.respelled]
      by_cases switch : cond.isSwitch = true
      · rw [if_pos switch]
        exact .fail _
      · have switch' : ¬(cond.respelled r).isSwitch = true := switch
        rw [if_neg switch, if_neg switch']
        refine .changed ?_
        rw [Conditional.modifyCurrent_respelled (f := fun block =>
          { block with body := block.body ++ [stmt] })]
        · exact mirrors.withFrames (.conditional _ oneLine :: outer)
        · intro block
          simp [Stmt.respelledBlock_eq]

/-- Everything is closed, or nothing is. -/
theorem checkClosed_mirrors (mirrors : s.Mirrors kept r tail tail' t) :
    Lockstep (fun s' t' => s' = s ∧ t' = t) checkClosed checkClosed s t := by
  -- The containers and the bare blocks are as many on both sides.
  refine .read ?_
  rw [mirrors.frames, mirrors.bare, List.getLast?_map]
  simp only [List.length_map]
  cases s.frames.getLast? with
  | some frame => exact .fail _
  | none =>
    cases s.bare.getLast? with
    | some pos => exact .fail _
    | none => exact .done ⟨rfl, rfl⟩

/-- The mark that a container waits for is put back. -/
theorem cascade_mirrors (mirrors : s.Mirrors kept r tail tail' t) (pos : Pos) :
    Lockstep (Mirrors kept r tail tail') (cascade pos) (cascade pos) s t := by
  -- Only a conditional that waits for its mark gets one, on both sides.
  refine .read ?_
  rw [mirrors.frames]
  cases s.frames with
  | nil => exact .done mirrors
  | cons frame outer =>
    cases frame with
    | function => exact .done mirrors
    | conditional cond oneLine =>
      cases oneLine with
      | false => exact .done mirrors
      | true =>
        have rested := mirrors.withFrames (.conditional cond false :: outer)
        have marked : Stmt.Mirrored r tail tail' (.item (.scopeEnd pos) :: s.queue)
            (.item (.scopeEnd pos) :: t.queue) := .cons (by rintro _ ⟨⟩) mirrors.queue
        exact .change (.changed (rested.withQueue marked))

/-- A finished conditional is put into the container around it. -/
theorem finishConditional_mirrors (mirrors : s.Mirrors kept r tail tail' t)
    (inside : Verbatim kept r ∨ s.frames ≠ []) (cond : Conditional Stmt) (pos : Pos) :
    Lockstep (Mirrors kept r tail tail') (finishConditional cond pos)
      (finishConditional (cond.respelled r) pos) s t := by
  -- The conditional is emitted on both sides, and then a mark is put back.
  have emits := emit_mirrors mirrors inside (.conditional cond)
  rw [Stmt.respelled_conditional] at emits
  exact emits.andThen fun _ _ _ mirrors => cascade_mirrors mirrors pos

/-- A finished function is declared and put out. -/
theorem finishFunction_mirrors {f g : Function Stmt} (mirrors : s.Mirrors kept .same tail tail' t)
    (alike : (f.decl.symbol f.body).Matches (g.decl.symbol g.body))
    (place : g.decl.pos = f.decl.pos)
    (emits : ∀ {a b : ScopeTable}, a.Matches b →
      Lockstep (Mirrors kept .same tail tail') (emit (.function f)) (emit (.function g))
        { s with session := { s.session with scopes := a } }
        { t with session := { t.session with scopes := b } }) (pos : Pos) :
    Lockstep (Mirrors kept .same tail tail') (finishFunction f pos) (finishFunction g pos) s t := by
  -- The name is claimed and defined, and the function emitted in sessions that still match.
  unfold finishFunction
  rw [place]
  refine (claimGlobal_mirrors mirrors alike f.decl.pos).andThen fun _ s' t' same => .change ?_
  obtain ⟨rfl, rfl⟩ := same
  exact (emits (mirrors.session.scopes.define alike .global)).andThen
    fun _ _ _ mirrors => cascade_mirrors mirrors pos

/-- The block of a case is handed to its switch. -/
theorem attachCase_mirrors (mirrors : s.Mirrors kept r tail tail' t) (cond : Conditional Stmt)
    (pos : Pos) :
    Lockstep (Mirrors kept r tail tail') (attachCase cond pos) (attachCase (cond.respelled r) pos)
      s t := by
  -- The conditional has a single block, and the switch around takes it, on both sides.
  unfold attachCase
  cases more : cond.others with
  -- More than one block is an error on both sides.
  | cons => simp [more, Conditional.respelled]; exact .fail _
  | nil =>
    simp only [more, Conditional.respelled, List.map_nil, List.isEmpty_nil, Bool.not_true,
      Bool.false_eq_true, if_false]
    refine .read ?_
    rw [mirrors.frames]
    -- So is anything but a switch around.
    cases s.frames with
    | nil => exact .fail _
    | cons frame outer =>
      cases frame with
      | function => exact .fail _
      | conditional switch oneLine =>
        -- The block is spelled before it is handed over or after.
        have attached : (Frame.conditional (addBlock switch cond.first) oneLine :: outer).map
            (Frame.respelled r) = .conditional (addBlock (switch.respelled r)
              (Stmt.respelledBlock r cond.first)) oneLine :: outer.map (Frame.respelled r) := by
          simp [Frame.respelled, addBlock, Conditional.respelled]
        refine .change ?_
        rw [List.map_cons] at attached
        have mirrors := mirrors.withFrames
          (.conditional (addBlock switch cond.first) oneLine :: outer)
        exact cascade_mirrors (attached ▸ mirrors) pos

/-! ### Blocks -/

/-- A statement that is read inside of a function and leaves it open, the innermost container
given first. -/
def Sheltered (stmt : Stmt) : List Frame → Prop
  | [] => False
  | .function _ depth :: _ => (∃ pos, stmt = .item (.scopeEnd pos)) → 1 < depth
  | .conditional .. :: outer => outer ≠ []

/-- What is read inside of a function is put into a container. -/
theorem Sheltered.ne_nil {stmt : Stmt} {frames : List Frame} (sheltered : Sheltered stmt frames) :
    frames ≠ [] := by
  -- Outside of all containers there is no function to be inside of.
  rintro rfl
  exact sheltered

/-- A conditional whose last block is opened. -/
theorem opened_respelled (cond : Conditional Stmt) :
    opened (cond.respelled r) = (opened cond).respelled r := by
  -- Opening a block changes its mark only.
  refine Conditional.modifyCurrent_respelled r { cond with depth := 1 } fun block => ?_
  simp [Stmt.respelledBlock_eq]

/-- A block that no clause governs is opened. -/
theorem openBare_mirrors (mirrors : s.Mirrors kept r tail tail' t)
    (inside : Verbatim kept r ∨ s.frames ≠ []) (pos : Pos) :
    Lockstep (Mirrors kept r tail tail') (openBare pos) (openBare pos) s t := by
  -- The block is counted in the innermost container and a scope entered.
  have counts : Lockstep
      (fun s t => s.Mirrors kept r tail tail' t ∧ (Verbatim kept r ∨ s.frames ≠ []))
      (deepen pos) (deepen pos) s t := by
    refine .read ?_
    simp only [mirrors.frames]
    generalize s.frames = frames at inside ⊢
    rcases frames with _ | ⟨⟨func, depth⟩ | ⟨cond, oneLine⟩, outer⟩
    · refine .changed ⟨⟨mirrors.session, mirrors.queue, mirrors.frames, ?_, mirrors.output⟩, ?_⟩
      · exact congrArg (pos :: ·) mirrors.bare
      · exact .inl (inside.resolve_right fun more => more rfl)
    · exact .changed ⟨mirrors.withFrames (.function func (depth + 1) :: outer),
        .inr (List.cons_ne_nil _ _)⟩
    · exact .changed ⟨mirrors.withFrames
        (.conditional { cond with depth := cond.depth + 1 } oneLine :: outer),
        .inr (List.cons_ne_nil _ _)⟩
  refine counts.andThen fun _ s t both => .change ?_
  have mirrors := both.1.withScopes (both.1.session.scopes.push none)
  exact emit_mirrors mirrors both.2 (.item (.scopeBegin pos))

/-! ### Declarations -/

/-- What is done in the open scope is done in the same one. -/
theorem currentNs_mirrors {α : Type} (mirrors : s.Mirrors kept r tail tail' t)
    {k l : Namespace → NestingStep α}
    (rest : Lockstep (Mirrors kept r tail tail') (k s.session.scopes.current)
      (l s.session.scopes.current) s t) :
    Lockstep (Mirrors kept r tail tail') (currentNs >>= k) (currentNs >>= l) s t := by
  -- The open scope is the same.
  intro a s' ran
  obtain ⟨t', ran', mirrors'⟩ := rest ran
  rw [← mirrors.current] at ran'
  exact ⟨t', ran', mirrors'⟩

/-- A variable is declared. -/
theorem declareVariable_mirrors (mirrors : s.Mirrors kept r tail tail' t)
    (inside : Verbatim kept r ∨ s.frames ≠ []) {var : Variable} (anchored : var.Anchored r) :
    Lockstep (Mirrors kept r tail tail') (declareVariable var)
      (declareVariable (var.respelled r)) s t := by
  -- The variable gets the same scope, and is claimed, defined and emitted there.
  refine currentNs_mirrors mirrors ?_
  let var : Variable := { var with ns := s.session.scopes.current }
  have anchored : var.Anchored r := ⟨anchored.address, anchored.dim⟩
  have alike : (Symbol.var var).Matches (.var (var.respelled r)) :=
    .var (matches_respelled anchored)
  refine (claimIn_mirrors mirrors var.ns alike var.pos).andThen fun _ s' t' same => .change ?_
  obtain ⟨rfl, rfl⟩ := same
  have mirrors := mirrors.withScopes (mirrors.session.scopes.define alike var.ns)
  exact emit_mirrors mirrors inside (.item (.var var))

/-- A label is declared. -/
theorem declareLabel_mirrors (mirrors : s.Mirrors kept r tail tail' t)
    (inside : Verbatim kept r ∨ s.frames ≠ []) (label : Label) :
    Lockstep (Mirrors kept r tail tail') (declareLabel label) (declareLabel label) s t := by
  -- The label is claimed, defined and emitted globally.
  have claims := claimGlobal_mirrors mirrors (.label label) label.pos
  refine claims.andThen fun _ s' t' same => .change ?_
  obtain ⟨rfl, rfl⟩ := same
  have mirrors := mirrors.withScopes (mirrors.session.scopes.define (.label label) .global)
  exact emit_mirrors mirrors inside (.item (.label label))

/-- The head of the function around is spelled another way. -/
theorem findSome?_decl? (r : Respelling) (frames : List Frame) :
    (frames.map (Frame.respelled r)).findSome? Frame.decl? =
      (frames.findSome? Frame.decl?).map (·.respelled r) := by
  -- By induction on the containers; the innermost function decides.
  induction frames with
  | nil => rfl
  | cons frame outer ih =>
    cases frame with
    | function => rfl
    | conditional => exact ih

/-- A return is put into its function. -/
theorem addReturn_mirrors (mirrors : s.Mirrors kept r tail tail' t)
    (inside : Verbatim kept r ∨ s.frames ≠ []) (ret : Return) :
    Lockstep (Mirrors kept r tail tail') (addReturn ret) (addReturn ret) s t := by
  -- There is a function around on both sides or on none.
  refine .read ?_
  rw [mirrors.frames, findSome?_decl?]
  cases s.frames.findSome? Frame.decl? with
  | none => exact .fail _
  | some decl =>
    -- The function is of the same kind.
    by_cases inlines : decl.isInline = true
    · simp only [Option.map_some, inlines, if_true]
      exact .fail _
    · have inlines' : ¬(decl.respelled r).isInline = true := inlines
      simp only [Option.map_some, inlines, inlines']
      exact emit_mirrors mirrors inside (.item (.ret { ret with interrupt := decl.isInterrupt }))

/-- How a block is opened, said of the conditional that it is opened in. -/
theorem openBlock_eq (cond : Conditional Stmt) (oneLine : Bool) (outer : List Frame) :
    openBlock cond oneLine outer = (do
      modifyScopes (·.push none)
      match openQueue (opened cond).current.clause.pos (← get).queue with
      | some (queue, child) =>
        setQueue queue
        setFrames (.conditional (opened cond) (oneLine || child) :: outer)
      | none =>
        throw (.missingStatement (opened cond).current.clause.pos
          (opened cond).current.clause.render)) :=
  rfl

section Barred

variable (barred : Stmt.Barred tail tail')

include barred

/-- A function is opened. -/
theorem openFunction_mirrors (mirrors : s.Mirrors kept r tail tail' t) (decl : FunctionDecl) :
    Lockstep (Mirrors kept r tail tail') (openFunction decl) (openFunction (decl.respelled r))
      s t := by
  -- A function inside another container is refused on both sides.
  refine .read ?_
  rw [mirrors.frames, mirrors.bare, List.isEmpty_map, mirrors.current]
  by_cases nested : (!s.frames.isEmpty || !s.bare.isEmpty) = true
  · rw [if_pos nested]
    exact .fail _
  · rw [if_neg nested, if_neg nested]
    -- The mark behind the head is no part of the barrier.
    have queue := mirrors.queue
    generalize s.queue = ahead at queue ⊢
    generalize t.queue = ahead' at queue ⊢
    cases queue with
    | ended => cases barred <;> exact .fail _
    | @cons stmt _ _ _ others =>
      cases stmt with
      | item i =>
        cases i with
        | scopeBegin pos =>
          have mirrors := (mirrors.withQueue others).withFrames
            [.function { decl, ns := s.session.scopes.current.child decl.name } 1]
          exact .change (.change (.changed
            (mirrors.withScopes (mirrors.session.scopes.push (some decl.name)))))
        | _ => exact .fail _
      | _ => exact .fail _

/-- The statements behind a clause, with the end of its block marked. -/
theorem openQueue_mirrors (pos : Pos) {queue queue' ahead : List Stmt} {child : Bool}
    (mirrored : Stmt.Mirrored r tail tail' queue queue')
    (opens : openQueue pos queue = some (ahead, child)) :
    ∃ ahead', openQueue pos queue' = some (ahead', child) ∧
      Stmt.Mirrored r tail tail' ahead ahead' := by
  -- By what stands behind the clause, in front of the barrier.
  cases mirrored with
  | ended => cases barred <;> cases opens
  | @cons stmt rest rest' anchored others =>
    have mark {queue queue'} (others : Stmt.Mirrored r tail tail' queue queue') :
        Stmt.Mirrored r tail tail' (.item (.scopeEnd pos) :: queue)
          (.item (.scopeEnd pos) :: queue') :=
      .cons (by rintro _ ⟨⟩) others
    have marked : Stmt.Mirrored r tail tail' (stmt :: .item (.scopeEnd pos) :: rest)
        (stmt.respelled r :: .item (.scopeEnd pos) :: rest') :=
      .cons anchored (mark others)
    -- A tree behind a clause is no block.
    cases stmt with
    | function | conditional => cases opens
    | item i =>
      cases i with
      | scopeBegin =>
        -- A brace is the block itself.
        cases opens
        exact ⟨_, rfl, others⟩
      | clause clause =>
        -- A clause is a block of its own, but not an `else`.
        by_cases other : clause.kind = .otherwise
        · simp [openQueue, other] at opens
        · have other' := mt (clause.kind_respelled_otherwise r).1 other
          simp only [openQueue, other, if_false, Option.some.injEq, Prod.mk.injEq] at opens
          obtain ⟨rfl, rfl⟩ := opens
          refine ⟨.item (.clause (clause.respelled r)) :: rest', ?_, .cons anchored others⟩
          simp [Stmt.respelled, Item.respelled, openQueue, other']
      | var var =>
        -- An initializer behind the variable comes before the mark.
        cases others with
        | ended => cases barred <;> cases opens <;> exact ⟨_, rfl, marked⟩
        | @cons second behind behind' _ others =>
          cases second with
          | function | conditional =>
            cases opens
            exact ⟨_, rfl, marked⟩
          | item j =>
            cases j with
            | initializer init =>
              cases opens
              exact ⟨_, rfl, .cons anchored (.cons (by rintro _ ⟨⟩) (mark others))⟩
            | _ =>
              cases opens
              exact ⟨_, rfl, marked⟩
      | instruction | call | ret | label =>
        -- A statement on its own is closed by the mark behind it.
        cases opens
        exact ⟨_, rfl, marked⟩
      | _ => cases opens

/-- The last block of a conditional is opened. -/
theorem openBlock_mirrors (mirrors : s.Mirrors kept r tail tail' t) (cond : Conditional Stmt)
    (oneLine : Bool) (outer : List Frame) :
    Lockstep (Mirrors kept r tail tail') (openBlock cond oneLine outer)
      (openBlock (cond.respelled r) oneLine (outer.map (Frame.respelled r))) s t := by
  -- A scope is entered, and the end of the block is marked in the same place.
  have mirrors := mirrors.withScopes (mirrors.session.scopes.push none)
  -- The block that is opened stands where it stood.
  have place : (opened (cond.respelled r)).current.clause.pos =
      (opened cond).current.clause.pos := by
    rw [opened_respelled, Conditional.current_respelled, Stmt.respelledBlock_eq]
    exact Clause.pos_respelled r _
  rw [openBlock_eq, openBlock_eq, place]
  refine .change (.read ?_)
  cases opens : openQueue (opened cond).current.clause.pos s.queue with
  | none =>
    exact .fail _
  | some found =>
    obtain ⟨ahead, child⟩ := found
    obtain ⟨ahead', opens', mirrored⟩ := openQueue_mirrors barred _ mirrors.queue opens
    simp only [opens', opened_respelled]
    exact .change (.changed ((mirrors.withQueue mirrored).withFrames
      (.conditional (opened cond) (oneLine || child) :: outer)))

/-- The block of a clause is opened. -/
theorem openClause_mirrors (mirrors : s.Mirrors kept r tail tail' t) (clause : Clause) :
    Lockstep (Mirrors kept r tail tail') (openClause clause) (openClause (clause.respelled r))
      s t := by
  -- By the kind of the clause, which spelling does not change.
  have fresh (frames : List Frame) : Lockstep (Mirrors kept r tail tail')
      (openBlock (.ofClause clause s.session.scopes.current) false frames)
      (openBlock (.ofClause (clause.respelled r) t.session.scopes.current) false
        (frames.map (Frame.respelled r))) s t := by
    rw [Conditional.ofClause_respelled, mirrors.current]
    exact openBlock_mirrors barred mirrors _ false frames
  refine .read ?_
  obtain ⟨kind, pos⟩ := clause
  cases kind with
  | otherwise =>
    -- An `else` goes on with the `if` before it.
    simp only [Clause.respelled, mirrors.frames]
    -- There has to be a conditional to go on with.
    rcases s.frames with _ | ⟨_ | ⟨cond, oneLine⟩, outer⟩
    · exact .fail _
    · exact .fail _
    · simp only [List.map_cons, Frame.respelled]
      -- It has to be an `if` whose block is closed.
      by_cases waits : cond.form = .ifThen ∧ cond.depth = 0
      · have waits' : (cond.respelled r).form = .ifThen ∧ (cond.respelled r).depth = 0 := waits
        rw [if_pos waits, if_pos waits']
        have more : addBlock { cond.respelled r with form := .ifElse }
            { clause := ⟨.otherwise, pos⟩ } = (addBlock { cond with form := .ifElse }
              { clause := ⟨.otherwise, pos⟩ } : Conditional Stmt).respelled r := by
          simp [addBlock, Conditional.respelled, Stmt.respelledBlock_eq, Clause.respelled]
        rw [more]
        exact openBlock_mirrors barred mirrors _ oneLine outer
      · rw [if_neg waits]
        exact .fail _
  | caseOf value =>
    -- A case belongs to the switch around it.
    simp only [Clause.respelled, mirrors.frames] at fresh ⊢
    -- There has to be a switch.
    rcases s.frames with _ | ⟨_ | ⟨cond, oneLine⟩, outer⟩
    · exact .fail _
    · exact .fail _
    · simp only [List.map_cons, Frame.respelled]
      -- No block of the switch may be open.
      by_cases selects : cond.isSwitch = true ∧ cond.depth = 1
      · have selects' : (cond.respelled r).isSwitch = true ∧ (cond.respelled r).depth = 1 := selects
        rw [if_pos selects, if_pos selects']
        exact fresh (.conditional cond oneLine :: outer)
      · rw [if_neg selects]
        exact .fail _
  | byDefault =>
    -- So does a default, of which there is at most one.
    simp only [Clause.respelled, mirrors.frames] at fresh ⊢
    rcases s.frames with _ | ⟨_ | ⟨cond, oneLine⟩, outer⟩
    · exact .fail _
    · exact .fail _
    · simp only [List.map_cons, Frame.respelled]
      by_cases selects : cond.isSwitch = true ∧ cond.depth = 1
      · have selects' : (cond.respelled r).isSwitch = true ∧ (cond.respelled r).depth = 1 := selects
        rw [if_pos selects, if_pos selects']
        -- A second default is an error.
        by_cases second : cond.form = .switchDefault
        · rw [if_pos second]
          exact .fail _
        · have second' : ¬(cond.respelled r).form = .switchDefault := second
          rw [if_neg second, if_neg second']
          exact fresh (.conditional { cond with form := .switchDefault } oneLine :: outer)
      · rw [if_neg selects]
        exact .fail _
  | ifTest | whileTest | doBlock | forever | switchOn =>
    -- The other clauses open a conditional where they stand.
    simp only [Clause.respelled, mirrors.frames] at fresh ⊢
    exact fresh s.frames

/-- The last block of a conditional is closed. -/
theorem closeConditional_mirrors (mirrors : s.Mirrors kept r tail tail' t) (cond : Conditional Stmt)
    (oneLine : Bool) {outer : List Frame} (inside : Verbatim kept r ∨ outer ≠ []) (pos : Pos) :
    Lockstep (Mirrors kept r tail tail') (closeConditional cond oneLine outer pos)
      (closeConditional (cond.respelled r) oneLine (outer.map (Frame.respelled r)) pos) s t := by
  -- By the form of the conditional, which spelling does not change.
  refine .read ?_
  have shut : (cond.respelled r).modifyCurrent (fun block => { block with isOpen := false }) =
      (cond.modifyCurrent fun block => { block with isOpen := false }).respelled r :=
    Conditional.modifyCurrent_respelled r cond fun block => by simp [Stmt.respelledBlock_eq]
  simp only [shut]
  generalize (cond.modifyCurrent fun block => { block with isOpen := false }) = last
  -- It goes on with an `else`, ends with its test, belongs to a switch, or is finished.
  have waits := mirrors.withFrames (.conditional last oneLine :: outer)
  have outside := mirrors.withFrames outer
  have finishes : Lockstep (Mirrors kept r tail tail')
      (setFrames outer >>= fun _ => finishConditional last pos)
      (setFrames (outer.map (Frame.respelled r)) >>= fun _ =>
        finishConditional (last.respelled r) pos) s t :=
    .change (finishConditional_mirrors outside inside last pos)
  have attaches : Lockstep (Mirrors kept r tail tail')
      (setFrames outer >>= fun _ => attachCase last pos)
      (setFrames (outer.map (Frame.respelled r)) >>= fun _ =>
        attachCase (last.respelled r) pos) s t :=
    .change (attachCase_mirrors outside last pos)
  have queue := mirrors.queue
  generalize s.queue = ahead at queue ⊢
  generalize t.queue = ahead' at queue ⊢
  obtain ⟨form, first, others, depth, post, ns⟩ := last
  simp only [Conditional.respelled] at waits finishes attaches ⊢
  cases form with
  | ifThen =>
    -- An `if` waits if an `else` comes next.
    cases queue with
    | ended => cases barred <;> exact finishes
    | @cons stmt =>
      rcases stmt with i | _ | _
      · cases i with
        | clause clause =>
          obtain ⟨kind, place⟩ := clause
          cases kind with
          | otherwise => exact .changed waits
          | _ => exact finishes
        | _ => exact finishes
      · exact finishes
      · exact finishes
  | doWhile =>
    -- A `do` takes the test that comes next, and fails without one.
    cases queue with
    | ended => cases barred <;> exact .fail _
    | @cons stmt _ _ _ behind =>
      rcases stmt with i | _ | _
      · cases i with
        | clause clause =>
          obtain ⟨kind, place⟩ := clause
          cases kind with
          | whileTest test =>
            have outside := (mirrors.withQueue behind).withFrames outer
            exact .change (.change (finishConditional_mirrors outside inside
              ⟨.doWhile, first, others, depth, some test, ns⟩ pos))
          | _ => exact .fail _
        | _ => exact .fail _
      · exact .fail _
      · exact .fail _
  -- Cases are attached, and all other forms are finished.
  | case | default => exact attaches
  | _ => exact finishes

/-- The innermost block is closed. -/
theorem close_mirrors (mirrors : s.Mirrors kept r tail tail' t) (pos : Pos)
    (loose : Verbatim kept r ∨ Sheltered (.item (.scopeEnd pos)) s.frames) :
    Lockstep (Mirrors kept r tail tail') (close pos) (close pos) s t := by
  -- By the innermost container, which is of the same kind on both sides.
  refine .read ?_
  simp only [mirrors.frames, mirrors.bare]
  generalize s.frames = frames at loose ⊢
  rcases frames with _ | ⟨⟨func, depth⟩ | ⟨cond, oneLine⟩, outer⟩
  · -- Outside of all containers nothing is spelled another way.
    have verbatim := loose.resolve_right id
    obtain rfl := verbatim.same
    cases s.bare with
    | nil => exact .fail _
    | cons begins rest =>
      have mirrors : Mirrors kept .same tail tail' { s with bare := rest }
          { t with bare := rest } :=
        ⟨mirrors.session, mirrors.queue, mirrors.frames, rfl, mirrors.output⟩
      refine .change ((popScope_mirrors mirrors).andThen fun _ s t mirrors => ?_)
      exact emit_mirrors mirrors (.inl verbatim) (.item (.scopeEnd pos))
  · -- The block of a function, which may be its last one.
    refine (popScope_mirrors mirrors).andThen fun _ s t mirrors => ?_
    by_cases deep : 1 < depth
    · -- A block inside of the function only counts down.
      simp only [deep, if_true]
      have mirrors := mirrors.withFrames (.function func (depth - 1) :: outer)
      exact .change (emit_mirrors mirrors (.inr (List.cons_ne_nil _ _)) (.item (.scopeEnd pos)))
    · -- The last block of the function ends it, which is read only where nothing is spelled another
      -- way.
      simp only [deep, if_false]
      have verbatim := loose.resolve_right fun sheltered => deep (sheltered ⟨pos, rfl⟩)
      obtain rfl := verbatim.same
      rw [Function.respelled_same]
      have mirrors := mirrors.withFrames outer
      refine .change (finishFunction_mirrors mirrors (.refl _) rfl (fun alike => ?_) pos)
      have emits := emit_mirrors (mirrors.withScopes alike) (.inl verbatim) (.function func)
      rwa [Stmt.respelled_same] at emits
  · -- The block of a conditional, which may be its last one.
    refine (popScope_mirrors mirrors).andThen fun _ s t mirrors => ?_
    have inside : Verbatim kept r ∨ outer ≠ [] := loose
    have shallow : ({ cond.respelled r with depth := (cond.respelled r).depth - 1 }) =
        ({ cond with depth := cond.depth - 1 } : Conditional Stmt).respelled r := rfl
    simp only [shallow]
    -- An inner block only counts down.
    by_cases deep : 0 < cond.depth - 1
    · have deep' : 0 < (cond.respelled r).depth - 1 := deep
      simp only [deep, deep', if_true]
      have mirrors := mirrors.withFrames
        (.conditional { cond with depth := cond.depth - 1 } oneLine :: outer)
      exact .change (emit_mirrors mirrors (.inr (List.cons_ne_nil _ _)) (.item (.scopeEnd pos)))
    · have deep' : ¬0 < (cond.respelled r).depth - 1 := deep
      simp only [deep, deep', if_false]
      exact closeConditional_mirrors barred mirrors _ oneLine inside pos

/-- A variable is declared with the initializer behind it. -/
theorem addVariable_mirrors (mirrors : s.Mirrors kept r tail tail' t)
    (inside : Verbatim kept r ∨ s.frames ≠ []) {var : Variable} (anchored : var.Anchored r) :
    Lockstep (Mirrors kept r tail tail') (addVariable var) (addVariable (var.respelled r)) s t := by
  -- An initializer stands behind the variable on both sides or on none.
  refine .read ?_
  have alone := declareVariable_mirrors mirrors inside anchored
  have queue := mirrors.queue
  generalize s.queue = ahead at queue ⊢
  generalize t.queue = ahead' at queue ⊢
  cases queue with
  | ended => cases barred <;> exact alone
  | @cons stmt _ _ _ behind =>
    rcases stmt with i | _ | _
    · cases i with
      | initializer init =>
        have anchored : ({ var with init := some init } : Variable).Anchored r :=
          ⟨anchored.address, anchored.dim⟩
        exact .change (declareVariable_mirrors (mirrors.withQueue behind) inside anchored)
      | _ => exact alone
    · exact alone
    · exact alone

/-- A statement is read in step. -/
theorem step_mirrors (mirrors : s.Mirrors kept r tail tail' t) {stmt : Stmt}
    (anchored : stmt.Anchored r) (loose : Verbatim kept r ∨ Sheltered stmt s.frames) :
    Lockstep (Mirrors kept r tail tail') (step stmt) (step (stmt.respelled r)) s t := by
  -- By cases on the statement, each kind of which has its own lemma.
  have inside : Verbatim kept r ∨ s.frames ≠ [] := loose.imp_right Sheltered.ne_nil
  cases stmt with
  | function func =>
    -- Trees are emitted as they are.
    have emits := emit_mirrors mirrors inside (.function func)
    rw [Stmt.respelled] at emits ⊢
    exact emits
  | conditional cond =>
    have emits := emit_mirrors mirrors inside (.conditional cond)
    rw [Stmt.respelled_conditional] at emits ⊢
    exact emits
  | item i =>
    cases i with
    | functionDecl decl =>
      -- Declarations of functions, clauses, braces and variables have lemmas of their own.
      rcases loose with verbatim | sheltered
      · obtain rfl := verbatim.same
        exact openFunction_mirrors barred mirrors decl
      · -- Inside of a function none is opened.
        refine .read ?_
        rw [if_pos (by simp [sheltered.ne_nil])]
        exact .fail _
    | clause clause => exact openClause_mirrors barred mirrors clause
    | scopeBegin pos => exact openBare_mirrors mirrors inside pos
    | scopeEnd pos => exact close_mirrors barred mirrors pos loose
    | var var => exact addVariable_mirrors barred mirrors inside (anchored var rfl)
    | initializer init => exact .fail _
    | label label => exact declareLabel_mirrors mirrors inside label
    | typeDecl decl =>
      -- The type is declared in both tables.
      have alike : (s.session.scopes.define (.type decl.type) s.session.scopes.current).Matches
          (t.session.scopes.define (.type decl.type) t.session.scopes.current) := by
        rw [mirrors.current]
        exact mirrors.session.scopes.define (.type decl.type) _
      exact .changed (mirrors.withScopes alike)
    | ret ret => exact addReturn_mirrors mirrors inside ret
    | call c =>
      -- Calls and instructions are noted in the open scope.
      refine currentNs_mirrors mirrors ?_
      exact emit_mirrors mirrors inside (.item (.call { c with ns := s.session.scopes.current }))
    | instruction line =>
      refine currentNs_mirrors mirrors ?_
      exact emit_mirrors mirrors inside
        (.item (.instruction { line with ns := s.session.scopes.current }))
    | fileEnd name =>
      -- At the end of a file nothing may be open; the other items are emitted.
      refine (checkClosed_mirrors mirrors).andThen fun _ s' t' same => ?_
      obtain ⟨rfl, rfl⟩ := same
      exact emit_mirrors mirrors inside (.item (.fileEnd name))
    | fileBegin name => exact emit_mirrors mirrors inside (.item (.fileBegin name))
    | directive d pos => exact emit_mirrors mirrors inside (.item (.directive d pos))

/-- Reading goes on in step as long as the barrier is not reached. -/
theorem Mirrors.advances {s' : Nesting} (mirrors : s.Mirrors kept r tail tail' t)
    (before : s.queue ≠ tail)
    (loose : ∀ stmt rest, s.queue = stmt :: rest → Verbatim kept r ∨ Sheltered stmt s.frames)
    (advances : s.Advances s') : ∃ t', t.Advances t' ∧ s'.Mirrors kept r tail tail' t' := by
  -- Both queues have a statement in front of the barrier.
  cases advances with
  | @mk stmt rest queued ran =>
    have queue := mirrors.queue
    rw [queued] at before queue
    -- The statement that is read stands before the barrier.
    generalize queued' : t.queue = ahead' at queue
    cases queue with
    | ended => exact absurd rfl before
    | cons anchored others =>
      have steps := step_mirrors barred (mirrors.withQueue others) anchored (loose stmt rest queued)
      obtain ⟨t', ran', mirrors'⟩ := steps ran
      exact ⟨t', .mk queued' ran', mirrors'⟩

end Barred

/-! ### Reading to the end -/

/-- States that are related as long as a barrier is not reached are related when it is. -/
theorem Visits.meet {R : Nesting → Nesting → Prop}
    (steps : ∀ s t s', R s t → s.queue ≠ tail → s.Advances s' → ∃ t', t.Advances t' ∧ R s' t')
    (ends : ∀ s t, R s t → s.queue = [] → tail = []) {last : Nesting} (visits : s.Visits last)
    (done : last.queue = []) (related : R s t) :
    ∃ s' t', s.Visits s' ∧ s'.Visits last ∧ t.Visits t' ∧ R s' t' ∧ s'.queue = tail := by
  -- By induction on the statements that are read, up to the barrier.
  induction visits using Relation.ReflTransGen.head_induction_on generalizing t with
  | refl =>
    have empty := ends _ _ related done
    exact ⟨last, t, .refl, .refl, .refl, related, done.trans empty.symm⟩
  | @head s middle advances visits ih =>
    -- Reading stops at the barrier, or goes on by one statement.
    by_cases reached : s.queue = tail
    · exact ⟨s, t, .refl, .head advances visits, .refl, related, reached⟩
    · obtain ⟨t', advances', related'⟩ := steps _ _ _ related reached advances
      obtain ⟨s₁, t₁, toS, toLast, toT, related₁, reached₁⟩ := ih related'
      exact ⟨s₁, t₁, .head advances toS, toLast, .head advances' toT, related₁, reached₁⟩

/-- With nothing left to read and nothing open, reading is done. -/
theorem run_finished (queue : s.queue = []) (frames : s.frames = []) (bare : s.bare = []) :
    run s = .ok s.output s := by
  -- Nothing is open, so that the check at the end is passed.
  have shut : checkClosed s = .ok () s := by
    rw [checkClosed, get_bind, frames, bare]
    rfl
  rw [run]
  split
  · rw [shut]
  · rename_i queued
    cases queued.symm.trans queue

/-- The same statements are read to the end in a session that follows. -/
theorem run_follows (keeps : ∀ stmt, kept stmt stmt) (mirrors : s.Mirrors kept .same [] [] t)
    {nested : List Stmt} {last : Nesting} (ran : run s = .ok nested last) :
    ∃ nested' last', run t = .ok nested' last' ∧ last.session.Follows last'.session ∧
      List.Forall₂ kept nested nested' := by
  -- Both readings are led to the end of the statements, where nothing is left on either side.
  obtain ⟨visits, queue, frames, bare, rfl⟩ := run_eq_ok ran
  have verbatim : Verbatim kept .same := ⟨rfl, keeps⟩
  have steps : ∀ s t s' : Nesting, s.Mirrors kept .same [] [] t → s.queue ≠ [] → s.Advances s' →
      ∃ t', t.Advances t' ∧ s'.Mirrors kept .same [] [] t' :=
    fun s t s' mirrors before advances =>
      mirrors.advances .empty before (fun _ _ _ => .inl verbatim) advances
  obtain ⟨s₁, t₁, -, toLast, toT, mirrors, reached⟩ :=
    visits.meet steps (fun _ _ _ _ => rfl) queue mirrors
  -- Nothing is left to be read where the first reading ends.
  have same : s₁ = last := by
    cases toLast.cases_head with
    | inl same => exact same
    | inr more =>
      obtain ⟨_, ⟨queued, -⟩, -⟩ := more
      cases reached.symm.trans queued
  subst same
  have queue' : t₁.queue = [] := mirrors.queue.reached reached
  have frames' : t₁.frames = [] := by rw [mirrors.frames, frames, List.map_nil]
  refine ⟨t₁.output, t₁, ?_, mirrors.session, mirrors.output⟩
  rw [← toT.run_eq]
  exact run_finished queue' frames' (mirrors.bare.trans bare)

end Nesting

/-- The same statements are nested in a session that follows. -/
theorem nest_follows {s t s' : Session} (follows : s.Follows t) {stmts nested : List Stmt}
    (nests : nest stmts s = .ok nested s') :
    ∃ t', nest stmts t = .ok nested t' ∧ s'.Follows t' := by
  -- Reading starts in states that mirror each other.
  unfold nest at nests ⊢
  have begins : Nesting.Mirrors Eq .same [] [] { session := s, queue := stmts }
      { session := t, queue := stmts } := by
    refine ⟨follows, ?_, rfl, rfl, .nil⟩
    have queue := Stmt.mirrored_same [] [] stmts
    rwa [List.append_nil] at queue
  split at nests
  · rename_i output last ran
    cases nests
    obtain ⟨nested', last', ran', follows', same⟩ := Nesting.run_follows (fun _ => rfl) begins ran
    rw [List.forall₂_eq_eq_eq] at same
    subst same
    exact ⟨last'.session, by rw [ran'], follows'⟩
  · cases nests

end CrossAsm
