import CrossAsm.Proofs.Nesting.Braces
import CrossAsm.Proofs.Nesting.Following
import CrossAsm.Proofs.Nesting.Functions
import CrossAsm.Proofs.Resolve.Renamed

/-! A program in which a parameter of one inline function has another name: it is nested to the same
statements, but for that function, and to symbols that answer alike. -/

namespace CrossAsm

/-! ### The values of an item -/

/-- The length of a dimension. -/
def Dim.values : Dim → List Expr
  | .sized length => [length]
  | .scalar | .unsized => []

/-- The values of an initializer. -/
def Initializer.values (init : Initializer) : List Expr :=
  match init.value with
  | .values exprs => exprs
  | .text _ => []

/-- Where a variable is and how long it is. -/
def Variable.extent (var : Variable) : List Expr :=
  var.address.toList ++ var.dim.values

/-- The values in a flat item: operands, arguments, the values of cases, and the addresses, lengths
and initial values of variables. -/
def Item.values : Item → List Expr
  | .instruction line => line.operand.value?.toList
  | .call c => c.args
  | .var v => v.extent ++ v.init.toList.flatMap Initializer.values
  | .initializer init => init.values
  | .clause ⟨.caseOf value, _⟩ => [value]
  | _ => []

section Values

variable {a b c : Respelling}

/-- Where a variable is and how long it is, spelled another way. -/
theorem Variable.extent_respelled (var : Variable) :
    (var.respelled a).extent = var.extent.map a.value := by
  -- The dimension and the address are what may hold values.
  obtain ⟨type, name, shared, dim, address, init, ns, size, pos⟩ := var
  cases dim <;> cases address <;> rfl

/-- The values of an initializer, spelled another way. -/
theorem Initializer.values_respelled (init : Initializer) :
    (init.respelled a).values = init.values.map a.value := by
  -- Only expressions are spelled; text is its content.
  obtain ⟨exprs | content, pos⟩ := init <;> rfl

/-- The values of an item, spelled another way. -/
theorem Item.values_respelled (item : Item) :
    (item.respelled a).values = item.values.map a.value := by
  -- By cases on the item; only some kinds have values.
  cases item with
  | instruction line =>
    obtain ⟨op, operand, mode, ns, pos⟩ := line
    cases operand <;> rfl
  | var var =>
    have inits : (var.respelled a).init.toList.flatMap Initializer.values =
        (var.init.toList.flatMap Initializer.values).map a.value := by
      cases here : var.init <;> simp [Variable.respelled, here, Initializer.values_respelled]
    rw [respelled, values, values, Variable.extent_respelled, inits, List.map_append]
  | initializer init => exact init.values_respelled
  | clause clause =>
    obtain ⟨kind, pos⟩ := clause
    cases kind <;> rfl
  | _ => rfl

/-- An initializer that is spelled twice. -/
theorem Initializer.respelled_respelled {init : Initializer}
    (alike : ∀ value ∈ init.values, b.value (a.value value) = c.value value) :
    (init.respelled a).respelled b = init.respelled c := by
  -- Values are spelled one by one, and a text is not spelled.
  obtain ⟨exprs | content, pos⟩ := init
  · have values : (exprs.map a.value).map b.value = exprs.map c.value := by
      rw [List.map_map]
      exact List.map_congr_left alike
    simp only [respelled, values]
  · rfl

/-- A variable that is spelled twice. -/
theorem Variable.respelled_respelled {var : Variable}
    (alike : ∀ value ∈ (Item.var var).values, b.value (a.value value) = c.value value) :
    (var.respelled a).respelled b = var.respelled c := by
  -- Its address, its length and its initializer are the parts that are spelled.
  obtain ⟨type, name, shared, dim, address, init, ns, size, pos⟩ := var
  simp only [Item.values, extent, List.forall_mem_append] at alike
  obtain ⟨⟨addresses, lengths⟩, inits⟩ := alike
  simp only [respelled, mk.injEq, true_and, and_true]
  refine ⟨?_, ?_, ?_⟩
  · cases dim with
    | sized length => exact congrArg Dim.sized (lengths length (List.mem_singleton_self _))
    | scalar | unsized => rfl
  · cases address with
    | none => rfl
    | some value => exact congrArg some (addresses value (List.mem_singleton_self _))
  · cases init with
    | none => rfl
    | some init =>
      refine congrArg some (Initializer.respelled_respelled fun value inside => inits value ?_)
      simpa using inside

/-- An item that is spelled twice. -/
theorem Item.respelled_respelled {item : Item}
    (alike : ∀ value ∈ item.values, b.value (a.value value) = c.value value) :
    (item.respelled a).respelled b = item.respelled c := by
  -- By cases on the item, for each of its values.
  cases item with
  | instruction line =>
    obtain ⟨op, operand, mode, ns, pos⟩ := line
    cases operand <;> simp_all [respelled, values, Operand.value?, Operand.map]
  | call called =>
    have args : called.args.map (b.value ∘ a.value) = called.args.map c.value :=
      List.map_congr_left alike
    simp only [respelled, List.map_map, args]
  | var var => rw [respelled, respelled, respelled, Variable.respelled_respelled alike]
  | initializer init => rw [respelled, respelled, respelled, Initializer.respelled_respelled alike]
  | clause clause =>
    obtain ⟨kind, pos⟩ := clause
    cases kind with
    | caseOf value => simp [respelled, Clause.respelled, alike value (List.mem_singleton_self _)]
    | _ => rfl
  | _ => rfl

/-- Items are spelled alike if their values are. -/
theorem Item.respelled_congr {item : Item}
    (alike : ∀ value ∈ item.values, a.value value = b.value value) :
    item.respelled a = item.respelled b := by
  -- Spelling the item as it is leaves it alone, so that both are a second spelling of it.
  have twice : (item.respelled .same).respelled a = item.respelled b := respelled_respelled alike
  rwa [respelled_same] at twice

/-- A variable stays in place if the values for that are spelled as they are. -/
theorem Variable.anchored {var : Variable} (same : ∀ value ∈ var.extent, a.value value = value) :
    var.Anchored a := by
  -- The address and the length are the values that matter.
  obtain ⟨type, name, shared, dim, address, init, ns, size, pos⟩ := var
  simp only [extent, List.forall_mem_append] at same
  obtain ⟨addresses, lengths⟩ := same
  constructor
  · cases address with
    | none => rfl
    | some value => exact congrArg some (addresses value (List.mem_singleton_self _))
  · cases dim with
    | sized length => exact congrArg Dim.sized (lengths length (List.mem_singleton_self _))
    | scalar | unsized => rfl

end Values

/-! ### Programs with one function singled out -/

/-- A flat program with one of its functions singled out. -/
structure Excerpt where
  /-- What stands before the function. -/
  before : List Item
  /-- Its head. -/
  decl : FunctionDecl
  /-- Where its block begins. -/
  begins : Pos
  /-- What stands in its block. -/
  body : List Item
  /-- Where its block ends. -/
  ends : Pos
  /-- What stands after the function. -/
  after : List Item

/-- Braces are spelled as they are. -/
theorem Stmt.balanced_respelled (r : Respelling) (count : Nat) (items : List Item) :
    Stmt.balanced count ((items.map (Item.respelled r)).map .item) =
      Stmt.balanced count (items.map .item) := by
  -- By induction on the items, of which only braces count.
  induction items generalizing count with
  | nil => rfl
  | cons item items ih =>
    cases item with
    | scopeBegin pos => exact ih (count + 1)
    | scopeEnd pos =>
      cases count with
      | zero => rfl
      | succ less => exact ih less
    | _ => exact (Stmt.balanced_cons rfl).trans ((ih count).trans (Stmt.balanced_cons rfl).symm)

namespace Excerpt

/-- The statements from the end of the function on. -/
def rest (program : Excerpt) : List Stmt :=
  .item (.scopeEnd program.ends) :: program.after.map .item

/-- The statements from the block of the function on. -/
def block (program : Excerpt) : List Stmt :=
  .item (.scopeBegin program.begins) :: (program.body.map .item ++ program.rest)

/-- The statements from the head of the function on. -/
def onward (program : Excerpt) : List Stmt :=
  .item (.functionDecl program.decl) :: program.block

/-- The statements of the program. -/
def stmts (program : Excerpt) : List Stmt :=
  program.before.map .item ++ program.onward

/-- The program with the function spelled another way: its parameters, and the values in its
block. -/
def respelled (r : Respelling) (program : Excerpt) : Excerpt :=
  { program with decl := program.decl.respelled r, body := program.body.map (Item.respelled r) }

/-- A parameter of an inline function may get another name, which the function does not use, if the
parameter says nothing about where a variable in the function is and how long it is. -/
structure Renameable (p q : String) (program : Excerpt) : Prop where
  /-- The function is inline. -/
  inline : program.decl.isInline = true
  /-- The braces in its block match. -/
  matched : Stmt.balanced 0 (program.body.map .item) = true
  /-- One of its parameters has the old name. -/
  param : p ∈ program.decl.params
  /-- None has the new one. -/
  fresh : q ∉ program.decl.params
  /-- Nor does a value in its block mention the new one. -/
  unused : ∀ item ∈ program.body, ∀ value ∈ item.values, value.mentions q = false
  /-- No address and no length of a variable in its block mentions the old one. -/
  apart : ∀ var, .var var ∈ program.body → ∀ value ∈ var.extent, value.mentions p = false

variable {p q : String} {program : Excerpt}

/-- Replacing a name by one that was not there, and back. -/
theorem map_replacedName {names : List String} (fresh : q ∉ names) :
    (names.map (replacedName p q)).map (replacedName q p) = names := by
  -- Each name is replaced back, as none of them was the new one before.
  have each : ∀ name ∈ names, replacedName q p (replacedName p q name) = name := by
    intro name inside
    have other : name ≠ q := fun same => fresh (same ▸ inside)
    by_cases here : name = p <;> simp [replacedName, here, other]
  rw [List.map_map]
  exact (List.map_congr_left each).trans (List.map_id' _)

/-- The address and the length of a variable do not mention the new name. -/
theorem Renameable.extent (renameable : program.Renameable p q) {var : Variable}
    (inside : .var var ∈ program.body) : ∀ value ∈ var.extent, value.mentions q = false :=
  fun value among => renameable.unused _ inside value (List.mem_append_left _ among)

/-- The old and the new name are not the same. -/
theorem Renameable.ne (renameable : program.Renameable p q) : p ≠ q :=
  fun same => renameable.fresh (same ▸ renameable.param)

/-- With the old name given back, the program is what it was. -/
theorem Renameable.back (renameable : program.Renameable p q) :
    (program.respelled (.rename p q)).respelled (.rename q p) = program := by
  -- The parameters and the values of the block get back what they had.
  have params : (program.decl.respelled (.rename p q)).respelled (.rename q p) = program.decl := by
    simp only [FunctionDecl.respelled, Respelling.rename, map_replacedName renameable.fresh]
  have body : (program.body.map (Item.respelled (.rename p q))).map
      (Item.respelled (.rename q p)) = program.body := by
    rw [List.map_map]
    refine (List.map_congr_left fun item inside => ?_).trans (List.map_id _)
    -- The values of the block do not mention the new name.
    have twice : (item.respelled (.rename p q)).respelled (.rename q p) = item.respelled .same :=
      Item.respelled_respelled fun value among =>
        Expr.renamed_renamed (renameable.unused item inside value among)
    exact twice.trans item.respelled_same
  rw [respelled, respelled, params, body]

/-- The old name may be given back. -/
theorem Renameable.symm (renameable : program.Renameable p q) :
    (program.respelled (.rename p q)).Renameable q p := by
  -- What the new name must not be, the old one is not once it is replaced.
  refine ⟨renameable.inline, ?_, ?_, ?_, ?_, ?_⟩
  · -- The braces of the body are balanced as before.
    rw [← renameable.matched]
    exact Stmt.balanced_respelled _ 0 program.body
  · -- The new name has come in place of the parameter.
    exact List.mem_map.2 ⟨p, renameable.param, if_pos rfl⟩
  · -- No parameter has the old name any more, and no value mentions it.
    intro inside
    obtain ⟨name, -, same⟩ := List.mem_map.1 inside
    by_cases here : name = p
    · exact renameable.ne (same.symm.trans (if_pos here))
    · exact here ((if_neg here).symm.trans same)
  · intro item inside value among
    obtain ⟨item, -, rfl⟩ := List.mem_map.1 inside
    rw [Item.values_respelled] at among
    obtain ⟨value, -, rfl⟩ := List.mem_map.1 among
    exact Expr.mentions_renamed renameable.ne value
  · -- The address and the dimension of a variable mention neither name.
    intro var inside value among
    obtain ⟨item, before, same⟩ := List.mem_map.1 inside
    cases item with
    | var old =>
      cases same
      rw [Variable.extent_respelled] at among
      obtain ⟨value, here, rfl⟩ := List.mem_map.1 among
      show (value.renamed p q).mentions q = false
      rw [Expr.renamed_of_mentions (renameable.apart old before value here)]
      exact renameable.extent before value here
    | _ => cases same

/-- In the block of the function the new name comes in place of nothing. -/
theorem Renameable.respelled_eq (renameable : program.Renameable p q) :
    program.respelled (.rename p q) = program.respelled (.renameFresh p q) := by
  -- No value of the block mentions the new name.
  have body : program.body.map (Item.respelled (.rename p q)) =
      program.body.map (Item.respelled (.renameFresh p q)) := by
    refine List.map_congr_left fun item inside => Item.respelled_congr fun value among => ?_
    show value.renamed p q = (value.blanked q).renamed p q
    rw [Expr.blanked_of_mentions (renameable.unused item inside value among)]
  rw [respelled, body]
  rfl

/-- All statements of the program are flat. -/
theorem stmts_flat (program : Excerpt) : ∀ stmt ∈ program.stmts, ∃ item, stmt = .item item := by
  -- The statements in front, the function and those behind are items, and so are the marks.
  simp only [stmts, onward, block, rest, List.forall_mem_append, List.forall_mem_cons,
    List.forall_mem_map]
  exact ⟨fun item _ => ⟨item, rfl⟩, ⟨_, rfl⟩, ⟨_, rfl⟩, fun item _ => ⟨item, rfl⟩, ⟨_, rfl⟩,
    fun item _ => ⟨item, rfl⟩⟩

/-- In the block of the function there is nothing to be blanked out. -/
theorem Renameable.respelled_blank (renameable : program.Renameable p q) :
    program.respelled (.blank q) = program := by
  -- No value of the block mentions the new name.
  have body : program.body.map (Item.respelled (.blank q)) = program.body := by
    refine (List.map_congr_left fun item inside => ?_).trans (List.map_id _)
    refine (Item.respelled_congr fun value among => ?_).trans item.respelled_same
    exact Expr.blanked_of_mentions (renameable.unused item inside value among)
  rw [respelled, body]
  rfl

/-- The statements of the block, spelled another way. -/
theorem map_body (r : Respelling) (program : Excerpt) :
    (program.body.map Stmt.item).map (Stmt.respelled r) =
      (program.respelled r).body.map .item := by
  -- The statements of an excerpt are items, which are spelled by themselves.
  simp only [respelled, List.map_map]
  exact List.map_congr_left fun item _ => by rw [Function.comp_apply, Stmt.respelled]; rfl

/-- The block of the function is mirrored up to its end. -/
theorem mirrored_block {r : Respelling} (anchored : ∀ var, .var var ∈ program.body →
      ∀ value ∈ var.extent, r.value value = value) :
    Stmt.Mirrored r program.rest program.rest program.block (program.respelled r).block := by
  -- The variables of the block are where they were, and the mark behind them is the same.
  have stmts : ∀ stmt ∈ program.body.map Stmt.item, stmt.Anchored r := by
    intro stmt inside var same
    obtain ⟨item, among, rfl⟩ := List.mem_map.1 inside
    cases same
    exact Variable.anchored (anchored var among)
  have body := Stmt.mirrored_append stmts program.rest program.rest
  rw [map_body] at body
  exact .cons (by rintro _ ⟨⟩) body

end Excerpt

namespace Nesting

open Excerpt (Renameable)

variable {s s' t : Nesting} {start : Namespace} {program : Excerpt} {p q : String}

/-- Reading a statement leads to one state. -/
theorem Advances.unique {a b : Nesting} (first : s.Advances a) (second : s.Advances b) : a = b := by
  -- The statement is the first of the queue, and reading it has one result.
  obtain ⟨queued, ran⟩ := first
  obtain ⟨queued', ran'⟩ := second
  cases queued.symm.trans queued'
  cases ran.symm.trans ran'
  rfl

/-- What is read inside of a function leaves it open. -/
theorem Inside.sheltered {decl : FunctionDecl} {ends : Pos} {after rest : List Stmt} {stmt : Stmt}
    (inside : s.Inside decl (.item (.scopeEnd ends) :: after)) (queued : s.queue = stmt :: rest)
    (before : s.queue ≠ .item (.scopeEnd ends) :: after) : Sheltered stmt s.frames := by
  -- The statement stands in front of the end of the function, so that a block is open in it.
  obtain ⟨ahead, count, ⟨queue, balanced, within, depths⟩, -⟩ := inside
  cases ahead with
  | nil => exact (before queue).elim
  | cons first ahead =>
    cases queued.symm.trans queue
    -- By the innermost container, in which the statement is put.
    cases frames : s.frames with
    | nil =>
      rw [frames] at within
      exact within.elim
    | cons frame outer =>
      rw [frames] at within
      cases frame with
      | conditional cond oneLine =>
        -- A conditional stands inside of the function, which is around it.
        have around : Frame.InFunction decl outer := within
        rintro rfl
        exact around
      | function func depth =>
        -- An end closes one of the blocks in that of the function.
        obtain ⟨-, rfl⟩ : _ ∧ outer = [] := within
        rintro ⟨pos, rfl⟩
        obtain ⟨less, rfl, -⟩ := Stmt.balanced_scopeEnd balanced
        simp only [Nesting.depths, frames, List.map_cons, List.map_nil, total_cons, total_nil,
          Frame.waiting, Frame.depth] at depths
        omega

/-- Reading the block of the function: with the parameter renamed on the other side, and without the
new name on this one. -/
structure Paired (program : Excerpt) (p q : String) (s t : Nesting) : Prop where
  /-- The other side is spelled with the new name. -/
  renamed : s.Mirrors Stmt.Matches (.renameFresh p q) program.rest program.rest t
  /-- This one does not mention it. -/
  unused : s.Mirrors Stmt.Matches (.blank q) program.rest program.rest s
  /-- The function is open up to its end. -/
  inside : s.Inside program.decl program.rest
  /-- Scopes and containers are in step. -/
  inStep : ∃ start, s.InStep start

/-- Both sides go on as long as the end of the block is not reached. -/
theorem Paired.advances (paired : Paired program p q s t) (before : s.queue ≠ program.rest)
    (advances : s.Advances s') : ∃ t', t.Advances t' ∧ Paired program p q s' t' := by
  -- Both relations go on, and as reading is unique, the state that they reach is one.
  obtain ⟨renamed, unused, inside, start, inStep⟩ := paired
  have barred : Stmt.Barred program.rest program.rest := .scopeEnd program.ends _ _
  have sheltered (stmt rest) (queued : s.queue = stmt :: rest) : Sheltered stmt s.frames :=
    inside.sheltered queued before
  obtain ⟨t', advances', renamed'⟩ :=
    renamed.advances barred before (fun _ _ queued => .inr (sheltered _ _ queued)) advances
  obtain ⟨_, again, unused'⟩ :=
    unused.advances barred before (fun _ _ queued => .inr (sheltered _ _ queued)) advances
  obtain rfl := again.unique advances
  exact ⟨t', advances', renamed', unused', advances.inside inStep inside before, start,
    advances.inStep inStep⟩

/-- Outside of all containers the function is opened on another side, too, where it is spelled
another way. -/
theorem openFunction_paired {r : Respelling} (anchored : ∀ var, .var var ∈ program.body →
      ∀ value ∈ var.extent, r.value value = value)
    (follows : s.session.Follows t.session) (bare : t.bare = s.bare)
    (output : List.Forall₂ Stmt.Matches s.output t.output) (frames : s.frames = [])
    (frames' : t.frames = []) :
    Lockstep (Mirrors Stmt.Matches r program.rest program.rest) (openFunction program.decl)
      (openFunction (program.respelled r).decl) { s with queue := program.block }
      { t with queue := (program.respelled r).block } := by
  -- Nothing is open on either side.
  have barred : Stmt.Barred program.rest program.rest := .scopeEnd program.ends _ _
  have same : t.frames = s.frames.map (Frame.respelled r) := by
    rw [frames, frames', List.map_nil]
  have mirrors : Mirrors Stmt.Matches r program.rest program.rest
      { s with queue := program.block } { t with queue := (program.respelled r).block } :=
    ⟨follows, Excerpt.mirrored_block anchored, same, bare, output⟩
  exact openFunction_mirrors barred mirrors program.decl

/-- The function is opened on both sides. -/
theorem paired_of_opens (renameable : program.Renameable p q)
    (mirrors : s.Mirrors Stmt.Matches .same program.onward
      (program.respelled (.renameFresh p q)).onward t)
    (reached : s.queue = program.onward) (inStep : s.InStep start) (advances : s.Advances s') :
    ∃ t', t.Advances t' ∧ Paired program p q s' t' := by
  -- Opening the function starts both relations at once.
  have reached' : t.queue = .item (.functionDecl _) :: _ := mirrors.queue.reached reached
  have inStep' := advances.inStep inStep
  obtain ⟨queued, ran⟩ := advances
  cases queued.symm.trans reached
  -- A function is opened outside of all containers only.
  obtain ⟨frames, inside⟩ : s.frames = [] ∧ s'.Inside program.decl program.rest := by
    cases step_leads _ ran with
    | passes before => cases before
    | tree tree => exact (tree _ rfl).elim
    | function frames bare queue =>
      cases queue
      exact ⟨frames, program.body.map .item, 0, ⟨rfl, renameable.matched, ⟨rfl, rfl⟩, rfl⟩,
        .ofRested rfl rfl⟩
  have frames' : t.frames = [] := by rw [mirrors.frames, frames, List.map_nil]
  have renamed : ∀ var, .var var ∈ program.body → ∀ value ∈ var.extent,
      (Respelling.renameFresh p q).value value = value := by
    intro var among value here
    show (value.blanked q).renamed p q = value
    rw [Expr.blanked_of_mentions (renameable.extent among value here),
      Expr.renamed_of_mentions (renameable.apart var among value here)]
  have unused : ∀ var, .var var ∈ program.body → ∀ value ∈ var.extent,
      (Respelling.blank q).value value = value :=
    fun var among value here => Expr.blanked_of_mentions (renameable.extent among value here)
  obtain ⟨t', ran', paired⟩ :=
    openFunction_paired renamed mirrors.session mirrors.bare mirrors.output frames frames' ran
  -- Without the new name the function is what it is.
  have keeps : List.Forall₂ Stmt.Matches s.output s.output := List.forall₂_same.2 fun _ _ => .same _
  obtain ⟨s'', again, alone⟩ :=
    openFunction_paired unused (.refl s.session) rfl keeps frames frames ran
  rw [renameable.respelled_blank] at again
  cases ran.symm.trans again
  exact ⟨t', .mk reached' ran', paired, alone, inside, start, inStep'⟩

/-- The function is closed, and one that answers alike on the other side. -/
theorem closeFunction_mirrors {kept : Stmt → Stmt → Prop} {tail tail' queue queue' : List Stmt}
    {f g : Function Stmt} (frames : s.frames = [.function f 1])
    (frames' : t.frames = [.function g 1])
    (mirrors : Mirrors kept .same tail tail' { s with queue, frames := [] }
      { t with queue := queue', frames := [] })
    (alike : (f.decl.symbol f.body).Matches (g.decl.symbol g.body))
    (place : g.decl.pos = f.decl.pos)
    (keeps : kept (.function f) (.function g)) (pos : Pos) :
    Lockstep (Mirrors kept .same tail tail') (close pos) (close pos) { s with queue }
      { t with queue := queue' } := by
  -- The scope is left, and then the function is finished outside of everything.
  refine .read ?_
  simp only [frames, frames']
  refine Lockstep.andThen (popScope_lockstep ?_) ?_
  · exact mirrors.session.scopes
  · rintro _ _ _ ⟨a, b, matched, rfl, rfl⟩
    have mirrors := mirrors.withScopes matched
    -- Its block was the last one.
    show Lockstep _ (setFrames [] >>= fun _ => finishFunction f pos)
      (setFrames [] >>= fun _ => finishFunction g pos) _ _
    exact .change (finishFunction_mirrors mirrors alike place
      (fun matched => emit_outside (mirrors.withScopes matched) rfl keeps) pos)

/-- At its end the function is finished on both sides, and what comes behind it is the same. -/
theorem Paired.closes (paired : Paired program p q s t) (renameable : program.Renameable p q)
    (reached : s.queue = program.rest) (nested : s.WellNested) (advances : s.Advances s') :
    ∃ t', t.Advances t' ∧ s'.Mirrors Stmt.Matches .same [] [] t' := by
  -- At the barrier nothing is open but the function, whose body does not mention the new name.
  obtain ⟨renamed, unused, inside, start, inStep⟩ := paired
  have reached' : t.queue = .item (.scopeEnd program.ends) :: program.after.map .item :=
    renamed.queue.reached reached
  obtain ⟨func, frames, same⟩ := inside.reached inStep reached
  have frames' : t.frames = [.function (func.respelled (.renameFresh p q)) 1] := by
    rw [renamed.frames, frames]
    rfl
  -- The statements of the function are well formed and do not mention the new name.
  have body : ∀ stmt ∈ func.body, stmt.WellNested := by
    have fit := nested.frames
    rw [frames] at fit
    exact fit.2.1
  have blank : func.body.map (Stmt.respelled (.blank q)) = func.body := by
    have spelled := unused.frames
    rw [frames] at spelled
    have func := (Frame.function.inj (List.cons.inj spelled).1).1
    exact (congrArg Function.body func).symm
  -- Being inline, the function is entered without an address on both sides.
  have inline : func.decl.isInline = true := same ▸ renameable.inline
  have alike : (func.decl.symbol func.body).Matches
      ((func.respelled (.renameFresh p q)).decl.symbol
        (func.respelled (.renameFresh p q)).body) := by
    have inline' : (func.respelled (.renameFresh p q)).decl.isInline = true := inline
    rw [FunctionDecl.symbol, FunctionDecl.symbol, if_pos inline, if_pos inline']
    exact .function (FunctionSymbol.matches_renamed (same ▸ renameable.param)
      (same ▸ renameable.fresh) body blank none)
  obtain ⟨queued, ran⟩ := advances
  cases queued.symm.trans reached
  -- What is read behind the function is the same on both sides.
  have queue := Stmt.mirrored_same [] [] (program.after.map Stmt.item)
  rw [List.append_nil] at queue
  have mirrors : Mirrors Stmt.Matches .same [] []
      { s with queue := program.after.map .item, frames := [] }
      { t with queue := program.after.map .item, frames := [] } :=
    ⟨renamed.session, queue, rfl, renamed.bare, renamed.output⟩
  obtain ⟨t', ran', mirrors'⟩ :=
    closeFunction_mirrors frames frames' mirrors alike rfl (.inline inline inline) _ ran
  exact ⟨t', .mk reached' ran', mirrors'⟩

/-- Reading that succeeds goes on from every state in which something is left to be read. -/
theorem Visits.next {last : Nesting} (visits : s.Visits last) (done : last.queue = [])
    (more : s.queue ≠ []) : ∃ s', s.Advances s' ∧ s'.Visits last := by
  -- It does not end where something is left, and so it takes a step.
  cases visits.cases_head with
  | inl same => exact (more (same ▸ done)).elim
  | inr next => exact next

/-- A program is read with and without the new name: before the function, in its block and behind
it. -/
theorem run_renamed {nested : List Stmt} {last : Nesting} (renameable : program.Renameable p q)
    (mirrors : s.Mirrors Stmt.Matches .same program.onward
      (program.respelled (.renameFresh p q)).onward t) (inStep : s.InStep start)
    (wellNested : s.WellNested) (ran : run s = .ok nested last) :
    ∃ nested' last', run t = .ok nested' last' ∧ last.session.Follows last'.session ∧
      List.Forall₂ Stmt.Matches nested nested' := by
  -- The program is read in three parts, each of which the other side follows.
  obtain ⟨visits, done, -⟩ := run_eq_ok ran
  -- Up to the head of the function nothing is spelled another way.
  have verbatim : Verbatim Stmt.Matches .same := ⟨rfl, .same⟩
  have barred : Stmt.Barred program.onward (program.respelled (.renameFresh p q)).onward :=
    .function ..
  obtain ⟨s₁, t₁, toS₁, visits, toT₁, mirrors, reached⟩ := visits.meet
    (R := Mirrors Stmt.Matches .same program.onward (program.respelled (.renameFresh p q)).onward)
    (fun _ _ _ mirrors before advances =>
      mirrors.advances barred before (fun _ _ _ => .inl verbatim) advances)
    (fun _ _ mirrors empty => mirrors.queue.eq_nil empty) done mirrors
  -- From there on to its end the other side has the new name.
  obtain ⟨s₂, opens, visits⟩ := visits.next done (reached ▸ List.cons_ne_nil _ _)
  obtain ⟨t₂, opens', paired⟩ :=
    paired_of_opens renameable mirrors reached (toS₁.inStep inStep) opens
  obtain ⟨s₃, t₃, toS₃, visits, toT₃, paired, reached⟩ := visits.meet
    (R := Paired program p q)
    (fun _ _ _ paired before advances => Paired.advances paired before advances)
    (fun _ _ paired empty => paired.renamed.queue.eq_nil empty) done paired
  obtain ⟨s₄, closes, -⟩ := visits.next done (reached ▸ List.cons_ne_nil _ _)
  have toS₃ : s.Visits s₃ := toS₁.trans (.head opens toS₃)
  obtain ⟨t₄, closes', mirrors⟩ :=
    paired.closes renameable reached (toS₃.wellNested wellNested) closes
  -- Behind it there is no other difference.
  have toS₄ : s.Visits s₄ := toS₃.tail closes
  have toT₄ : t.Visits t₄ := (toT₁.trans (.head opens' toT₃)).tail closes'
  have ran₄ : run s₄ = .ok nested last := toS₄.run_eq.trans ran
  obtain ⟨nested', last', ran', follows, same⟩ := run_follows .same mirrors ran₄
  exact ⟨nested', last', toT₄.run_eq.symm.trans ran', follows, same⟩

end Nesting

/-- A program in which a parameter of an inline function has another name is nested to matching
statements, with matching symbols. -/
theorem Excerpt.nest_renamed {program : Excerpt} {p q : String} {cpu : Cpu} {nested : List Stmt}
    {session : Session} (renameable : program.Renameable p q)
    (nests : nest program.stmts { cpu } = .ok nested session) :
    ∃ nested' session',
      nest (program.respelled (.rename p q)).stmts { cpu } = .ok nested' session' ∧
      session.Follows session' ∧ List.Forall₂ Stmt.Matches nested nested' := by
  -- Nesting reads the whole program from a new session.
  rw [renameable.respelled_eq]
  have mirrors : Nesting.Mirrors Stmt.Matches .same program.onward
      (program.respelled (.renameFresh p q)).onward
      { session := { cpu }, queue := program.stmts }
      { session := { cpu }, queue := (program.respelled (.renameFresh p q)).stmts } :=
    ⟨.refl _, Stmt.mirrored_same _ _ _, rfl, rfl, .nil⟩
  have inStep : Nesting.InStep .global { session := { cpu }, queue := program.stmts } :=
    ⟨⟨[], rfl, rfl⟩, .inl nofun⟩
  have wellNested : Nesting.WellNested { session := { cpu }, queue := program.stmts } :=
    ⟨⟨rfl, nofun, program.stmts_flat⟩, nofun⟩
  unfold nest at nests ⊢
  split at nests
  · rename_i output last ran
    cases nests
    obtain ⟨nested', last', ran', follows, same⟩ :=
      Nesting.run_renamed renameable mirrors inStep wellNested ran
    exact ⟨nested', last'.session, by rw [ran'], follows, same⟩
  · cases nests

end CrossAsm
