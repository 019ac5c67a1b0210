import CrossAsm.Proofs.Lowering.Machine
import CrossAsm.Proofs.Nesting.Transitions

/-! The trees that nesting makes are well formed: each conditional has the blocks that its form asks
for, at any depth of the tree. A conditional in the making has them so far; what is missing is known
from the containers around it. -/

namespace CrossAsm

namespace Conditional

variable {α : Type}

/-- The keywords of the blocks behind the first one. -/
def kinds (cond : Conditional α) : List ClauseKind :=
  cond.others.map fun block => block.clause.kind

/-- How many blocks of a conditional are defaults. -/
def defaults (cond : Conditional α) : Nat :=
  cond.kinds.count .byDefault

/-- A conditional that is finished: it is well formed, nothing in it is open, and only a switch that
is marked for it has a default, which is one. -/
structure Finished (cond : Conditional α) : Prop where
  /-- It has the blocks that its form asks for. -/
  formed : cond.WellFormed
  /-- None of its blocks is open. -/
  depth : cond.depth = 0
  /-- A plain switch has no default. -/
  noDefault : cond.form = .switch → cond.defaults = 0
  /-- A switch with a default has one. -/
  oneDefault : cond.form = .switchDefault → cond.defaults = 1

end Conditional

/-- A well-formed tree: nothing in it was only to be read, and every conditional is finished. -/
inductive Stmt.WellNested : Stmt → Prop
  | item {item : Item} (kept : item.isRead = false) : WellNested (.item item)
  | function {func : Function Stmt} (body : ∀ s ∈ func.body, WellNested s) :
    WellNested (.function func)
  | conditional {cond : Conditional Stmt} (finished : cond.Finished)
    (inside : ∀ block ∈ cond.blocks, ∀ s ∈ block.body, WellNested s) :
    WellNested (.conditional cond)

/-- A well-formed tree behind others. -/
theorem Stmt.wellNested_snoc {stmts : List Stmt} {stmt : Stmt}
    (before : ∀ s ∈ stmts, s.WellNested) (nested : stmt.WellNested) :
    ∀ s ∈ stmts ++ [stmt], s.WellNested :=
  List.forall_mem_append.2 ⟨before, List.forall_mem_singleton.2 nested⟩

/-- The inline functions of a table hold well-formed trees. -/
def ScopeTable.WellNested (table : ScopeTable) : Prop :=
  ∀ func, table.HoldsInline func → ∀ s ∈ func.body, s.WellNested

/-! ### Conditionals in the making -/

/-- The form that the first clause of a conditional opens. -/
def Form.opening : Form → Form
  | .ifElse => .ifThen
  | .switchDefault => .switch
  | form => form

/-- The keyword of a clause, read off the form that it opens. -/
theorem Clause.kind_of_form (clause : Clause) :
    match clause.form with
    | .ifThen => ∃ test, clause.kind = .ifTest test
    | .ifElse => clause.kind = .otherwise
    | .whileLoop => ∃ test, clause.kind = .whileTest test
    | .doWhile => clause.kind = .doBlock
    | .forever => clause.kind = .forever
    | .switch => ∃ register, clause.kind = .switchOn register
    | .switchDefault => False
    | .case => ∃ value, clause.kind = .caseOf value
    | .default => clause.kind = .byDefault := by
  -- By cases on the keyword, each of which opens a form of its own.
  obtain ⟨kind, pos⟩ := clause
  cases kind with
  | ifTest | whileTest | switchOn | caseOf => exact ⟨_, rfl⟩
  | otherwise | doBlock | forever | byDefault => rfl

namespace Conditional

/-- A conditional in the making, which has the blocks that its form asks for so far. -/
structure Filling (cond : Conditional Stmt) : Prop where
  /-- Its first clause opens its form. -/
  opening : cond.first.clause.form = cond.form.opening
  /-- The other blocks are those of its form. -/
  others : match cond.form with
    | .ifElse => cond.kinds = [.otherwise]
    | .switch | .switchDefault =>
      ∀ kind ∈ cond.kinds, (∃ value, kind = .caseOf value) ∨ kind = .byDefault
    | _ => cond.kinds = []
  /-- The first block of a switch stands for itself only. -/
  placeholder : cond.isSwitch = true → cond.first.body = []
  /-- It has no trailing test yet. -/
  post : cond.post = none
  /-- Its blocks hold well-formed trees. -/
  inside : ∀ block ∈ cond.blocks, ∀ s ∈ block.body, s.WellNested

variable {cond : Conditional Stmt}

@[simp]
theorem modifyCurrent_post (f : Block Stmt → Block Stmt) :
    (cond.modifyCurrent f).post = cond.post := by
  -- The current block is the first one or the last of the others.
  unfold modifyCurrent
  split <;> rfl

/-- Changing the block being read changes no keyword, if its own stays. -/
theorem kinds_modifyCurrent (cond : Conditional Stmt) {f : Block Stmt → Block Stmt}
    (same : ∀ block, (f block).clause = block.clause) :
    (cond.modifyCurrent f).kinds = cond.kinds ∧
      (cond.modifyCurrent f).first.clause = cond.first.clause := by
  -- The block being read is the last one, or the first if there is no other.
  unfold modifyCurrent
  split
  · exact ⟨rfl, same _⟩
  · rename_i last found
    obtain ⟨front, whole⟩ := List.getLast?_eq_some_iff.1 found
    simp [kinds, whole, same]

/-- The block being read changes, but not its clause; that of a switch keeps its statements, too. -/
theorem Filling.modifyCurrent (filling : cond.Filling) {f : Block Stmt → Block Stmt}
    (same : ∀ block, (f block).clause = block.clause)
    (whole : cond.isSwitch = true → ∀ block, (f block).body = block.body)
    (fits : ∀ block : Block Stmt, (∀ s ∈ block.body, s.WellNested) →
      ∀ s ∈ (f block).body, s.WellNested) : (cond.modifyCurrent f).Filling := by
  -- The clauses stay, so that only the statements of the one block are to be looked at.
  obtain ⟨kinds, first⟩ := kinds_modifyCurrent cond same
  refine ⟨?_, ?_, fun switch => ?_, ?_, forall_modifyCurrent filling.inside fits⟩
  · rw [first, modifyCurrent_form]
    exact filling.opening
  · rw [modifyCurrent_form, kinds]
    exact filling.others
  · rw [modifyCurrent_isSwitch] at switch
    have empty := filling.placeholder switch
    unfold Conditional.modifyCurrent
    split
    · exact (whole switch _).trans empty
    · exact empty
  · rw [modifyCurrent_post]
    exact filling.post

/-- The blocks of a conditional, so far, do not tell how many are open. -/
theorem Filling.withDepth (filling : cond.Filling) (depth : Nat) :
    Filling { cond with depth } :=
  ⟨filling.opening, filling.others, filling.placeholder, filling.post, filling.inside⟩

/-- A conditional that a clause of its own opens. -/
theorem filling_ofClause {clause : Clause} (own : clause.kind ≠ .otherwise) (ns : Namespace) :
    Filling (.ofClause clause ns) := by
  -- The one block is empty.
  have empty : ∀ block ∈ (ofClause clause ns : Conditional Stmt).blocks, ∀ s ∈ block.body,
      s.WellNested := by
    intro block inside s mem
    obtain rfl := List.mem_singleton.1 inside
    cases mem
  obtain ⟨kind, pos⟩ := clause
  cases kind with
  | otherwise => exact (own rfl).elim
  | _ => exact ⟨rfl, by simp [ofClause, Clause.form, kinds], fun _ => rfl, rfl, empty⟩

/-- What a conditional holds when nothing belongs to it any more. -/
theorem Filling.wellFormed (filling : cond.Filling) (loop : cond.form ≠ .doWhile)
    (case : cond.form ≠ .case) (default : cond.form ≠ .default) : cond.WellFormed := by
  have kind := cond.first.clause.kind_of_form
  have others := filling.others
  have placeholder := filling.placeholder
  rw [filling.opening] at kind
  -- The form tells the keyword of the first block and those of the others.
  unfold WellFormed
  cases form : cond.form with
  | ifThen | whileLoop | forever =>
    simp only [form, Form.opening, kinds, List.map_eq_nil_iff] at kind others ⊢
    exact ⟨kind, others⟩
  | ifElse =>
    simp only [form, Form.opening, kinds, List.map_eq_singleton_iff] at kind others ⊢
    exact ⟨kind, others⟩
  | switch | switchDefault =>
    simp only [form, Form.opening, kinds, List.forall_mem_map, isSwitch, decide_true,
      Bool.true_or, Bool.or_true, forall_const] at kind others placeholder ⊢
    exact ⟨kind, placeholder, others⟩
  | doWhile => exact (loop form).elim
  | case => exact (case form).elim
  | default => exact (default form).elim

/-- A loop is well formed with the test behind it. -/
theorem Filling.wellFormed_loop (filling : cond.Filling) (loop : cond.form = .doWhile)
    (test : Test) : WellFormed { cond with post := some test } := by
  -- A `do` loop has one block, and gets its test.
  have kind := cond.first.clause.kind_of_form
  have others := filling.others
  rw [filling.opening] at kind
  simp only [loop, Form.opening, kinds, List.map_eq_nil_iff] at kind others
  simp only [WellFormed, loop]
  exact ⟨kind, others, test, rfl⟩

end Conditional

/-! ### Containers -/

/-- Whether a form is that of a block of a switch. -/
def Form.isArm : Form → Bool
  | .case | .default => true
  | _ => false

/-- A conditional in the making, directly inside which another one of the given form may be. -/
structure Conditional.Fits (above : Option Form) (cond : Conditional Stmt) : Prop where
  /-- It has its blocks so far. -/
  filling : cond.Filling
  /-- Cases are directly inside a switch only. -/
  arm : above.any Form.isArm = true → cond.isSwitch = true
  /-- A switch is marked for the default that it has or that is directly inside it. -/
  defaults : cond.isSwitch = true →
    cond.defaults + (if above = some .default then 1 else 0) =
      if cond.form = .switchDefault then 1 else 0

/-- A conditional with nothing directly inside it. -/
theorem Conditional.Fits.alone {cond : Conditional Stmt} (filling : cond.Filling)
    (defaults : cond.isSwitch = true →
      cond.defaults = if cond.form = .switchDefault then 1 else 0) : cond.Fits none := by
  -- Nothing inside is no case and no default.
  refine ⟨filling, fun arm => ?_, fun switch => ?_⟩
  · cases arm
  · rw [defaults switch]
    rfl

/-- With nothing directly inside, a switch has the default that it is marked for. -/
theorem Conditional.Fits.defaults_eq {cond : Conditional Stmt} (fits : cond.Fits none) :
    (cond.form = .switch → cond.defaults = 0) ∧ (cond.form = .switchDefault → cond.defaults = 1) := by
  -- The number of defaults is read off the form.
  constructor
  · intro form
    simpa [form] using fits.defaults (by simp [isSwitch, form])
  · intro form
    simpa [form] using fits.defaults (by simp [isSwitch, form])

/-- Neither the mark of the block being read nor the number of open ones matters. -/
theorem Conditional.Fits.marked {above : Option Form} {cond : Conditional Stmt}
    (fits : cond.Fits above) (depth : Nat) (isOpen : Bool) :
    Fits above ({ cond with depth }.modifyCurrent fun block => { block with isOpen }) := by
  -- The mark of a block is in neither condition.
  have filling := (fits.filling.withDepth depth).modifyCurrent
    (f := fun block => { block with isOpen }) (fun _ => rfl) (fun _ _ => rfl) fun _ => id
  have kinds := (kinds_modifyCurrent { cond with depth }
    (f := fun block => { block with isOpen }) fun _ => rfl).1
  refine ⟨filling, fun arm => ?_, fun switch => ?_⟩
  · rw [modifyCurrent_isSwitch]
    exact fits.arm arm
  · rw [modifyCurrent_isSwitch] at switch
    rw [Conditional.defaults, kinds, modifyCurrent_form]
    exact fits.defaults switch

namespace Frame

/-- Containers in the making, directly inside which a conditional of the given form may be. -/
def AllFit : Option Form → List Frame → Prop
  | above, [] => above.any Form.isArm = false
  | above, .function func _ :: outer =>
    above.any Form.isArm = false ∧ (∀ s ∈ func.body, s.WellNested) ∧ AllFit none outer
  | above, .conditional cond _ :: outer => cond.Fits above ∧ AllFit (some cond.form) outer

variable {above above' : Option Form} {frame : Frame} {outer frames : List Frame}

/-- Anything but a case is the same to the containers around it. -/
theorem AllFit.change (fit : AllFit above frames) (before : above.any Form.isArm = false)
    (after : above'.any Form.isArm = false) : AllFit above' frames := by
  -- Only the innermost container looks at what is directly inside of it.
  have noDefault : ∀ {above : Option Form}, above.any Form.isArm = false →
      above ≠ some .default := by
    rintro above plain rfl
    cases plain
  cases frames with
  | nil => exact after
  | cons frame outer =>
    cases frame with
    | function => exact ⟨after, fit.2⟩
    | conditional cond =>
      obtain ⟨⟨filling, -, defaults⟩, around⟩ := fit
      refine ⟨⟨filling, fun arm => ?_, fun switch => ?_⟩, around⟩
      · rw [after] at arm
        cases arm
      · have counted := defaults switch
        rw [if_neg (noDefault before)] at counted
        rw [if_neg (noDefault after)]
        exact counted

/-- How many blocks of a container are open does not matter. -/
theorem AllFit.withDepth (fit : AllFit above (frame :: outer)) (depth : Nat) :
    AllFit above (frame.withDepth depth :: outer) := by
  -- The number is no part of being well formed.
  cases frame with
  | function => exact fit
  | conditional => exact ⟨⟨fit.1.filling.withDepth depth, fit.1.arm, fit.1.defaults⟩, fit.2⟩

/-- Whether a container waits for a mark does not matter. -/
theorem AllFit.rested (fit : AllFit above (frame :: outer)) :
    AllFit above (frame.rested :: outer) := by
  -- The mark is no part of being well formed.
  cases frame <;> exact fit

/-- A well-formed tree is added to a container that takes it. -/
theorem AllFit.add (fit : AllFit none (frame :: outer)) (takes : frame.isSwitch = false)
    {stmt : Stmt} (nested : stmt.WellNested) : AllFit none (frame.add [stmt] :: outer) := by
  -- A function takes every tree, and of conditionals only a switch does not.
  cases frame with
  | function => exact ⟨fit.1, Stmt.wellNested_snoc fit.2.1 nested, fit.2.2⟩
  | conditional cond =>
    have plain : cond.isSwitch = false := takes
    refine ⟨.alone (fit.1.filling.modifyCurrent (fun _ => rfl) ?_ ?_) ?_, ?_⟩
    · intro switch
      rw [plain] at switch
      cases switch
    · intro block before
      exact Stmt.wellNested_snoc before nested
    · intro switch
      rw [Conditional.modifyCurrent_isSwitch, plain] at switch
      cases switch
    · rw [Conditional.modifyCurrent_form]
      exact fit.2

end Frame

namespace Nesting

variable {s s' : Nesting}

/-- The trees that were made so far are well formed, and only flat items are to be read. -/
structure Formed (s : Nesting) : Prop where
  /-- The containers have what they need so far. -/
  frames : Frame.AllFit none s.frames
  /-- What is done is well formed. -/
  output : ∀ stmt ∈ s.output, stmt.WellNested
  /-- Only flat items are to be read. -/
  queue : ∀ stmt ∈ s.queue, ∃ item, stmt = .item item

/-- Everything that was made so far is well formed, what inline functions hold among it. -/
structure WellNested (s : Nesting) : Prop extends Formed s where
  /-- What inline functions hold is well formed. -/
  table : s.session.scopes.WellNested

/-- A well-formed tree is added. -/
theorem Adds.formed {stmt : Stmt} (added : Adds stmt s s') (nested : stmt.WellNested)
    (before : s.Formed) : s'.Formed := by
  -- The tree comes to the innermost container or to the output.
  cases added with
  | inside frames takes =>
    exact ⟨(frames ▸ before.frames : Frame.AllFit none (_ :: _)).add takes nested, before.output,
      before.queue⟩
  | outside => exact ⟨before.frames, Stmt.wellNested_snoc before.output nested, before.queue⟩

/-- A mark is put back. -/
theorem Formed.cascaded (before : s.Formed) (pos : Pos) : (s.cascaded pos).Formed := by
  -- The mark is an item, and the container that waited for it is as before.
  unfold Nesting.cascaded
  split
  · exact before
  · rename_i frame outer frames
    refine ⟨(frames ▸ before.frames : Frame.AllFit none (_ :: _)).rested, before.output,
      fun stmt inside => ?_⟩
    rcases List.mem_append.1 inside with mark | old
    · unfold Frame.marks at mark
      split at mark
      · exact ⟨_, List.mem_singleton.1 mark⟩
      · cases mark
    · exact before.queue stmt old

/-- A conditional that is finished is well formed. -/
theorem Ends.wellNested {cond cond' : Conditional Stmt} {queue queue' : List Stmt}
    (ends : Ends cond queue cond' queue') (fits : cond.Fits none) :
    (Stmt.conditional cond').WellNested := by
  -- The conditional has its blocks, and its test if it is a `do` loop.
  have fits : (closed cond).Fits none := fits.marked 0 false
  have depth : (closed cond).depth = 0 := by simp [closed]
  cases ends with
  | plain loop case default =>
    rw [← closed_form cond] at loop case default
    have formed := fits.filling.wellFormed loop case default
    exact .conditional ⟨formed, depth, fits.defaults_eq.1, fits.defaults_eq.2⟩ fits.filling.inside
  | trailing loop =>
    rw [← closed_form cond] at loop
    have formed := fits.filling.wellFormed_loop loop
    refine .conditional ⟨formed _, depth, fun form => ?_, fun form => ?_⟩ fits.filling.inside
    · cases loop.symm.trans form
    · cases loop.symm.trans form

/-- What is finished is no case, and takes at most a test off the statements to be read. -/
theorem Ends.isArm {cond cond' : Conditional Stmt} {queue queue' : List Stmt}
    (ends : Ends cond queue cond' queue') :
    cond.form.isArm = false ∧ ∀ stmt ∈ queue', stmt ∈ queue := by
  -- By the way the conditional ends.
  cases ends with
  | plain _ case default =>
    refine ⟨?_, fun _ => id⟩
    cases form : cond.form with
    | case => exact (case form).elim
    | default => exact (default form).elim
    | _ => rfl
  | trailing loop =>
    rw [loop]
    exact ⟨rfl, fun _ => List.mem_cons_of_mem _⟩

/-- A block is opened in a conditional that has what it needs so far. -/
theorem Starts.allFit {ns : Namespace} {clause : Clause} {frames outer : List Frame}
    {cond : Conditional Stmt} {oneLine : Bool}
    (starts : Starts ns clause frames cond oneLine outer) (fit : Frame.AllFit none frames) :
    Frame.AllFit none (.conditional cond oneLine :: outer) := by
  -- A conditional of its own has no block behind the first one, and so no default.
  have own : clause.kind ≠ .otherwise → Conditional.Fits none (.ofClause clause ns) := by
    intro own
    refine .alone (Conditional.filling_ofClause own ns) fun _ => ?_
    obtain ⟨kind, pos⟩ := clause
    cases kind <;> rfl
  cases starts with
  | fresh otherwise case default =>
    -- A clause that opens a conditional of its own, outside of a switch.
    refine ⟨own otherwise, fit.change rfl ?_⟩
    obtain ⟨kind, pos⟩ := clause
    cases kind with
    | caseOf value => exact (case value rfl).elim
    | byDefault => exact (default rfl).elim
    | _ => rfl
  | @otherwise cond oneLine outer kind form depth =>
    -- The `if` before an `else` gets a second block, and then it is complete.
    obtain ⟨⟨filling, -, -⟩, around⟩ := fit
    have others := filling.others
    have opening := filling.opening
    rw [form] at around others opening
    refine ⟨.alone ⟨opening, ?_, fun switch => ?_, filling.post, ?_⟩ fun switch => ?_,
      around.change rfl rfl⟩
    · simp only [addBlock, Conditional.kinds, List.map_append, List.map_cons, List.map_nil, kind]
      rw [show cond.others.map (fun block => block.clause.kind) = [] from others]
      rfl
    · cases switch
    · have inside : ∀ block ∈ Conditional.blocks { cond with form := .ifElse },
          ∀ s ∈ block.body, s.WellNested := filling.inside
      exact Conditional.forall_addBlock inside (List.forall_mem_nil _)
    · cases switch
  | case kind switch depth =>
    -- A case is read inside of its switch, and counts no default.
    obtain ⟨fits, around⟩ := fit
    refine ⟨own (by simp [kind]), ⟨fits.filling, fun _ => switch, fun marked => ?_⟩, around⟩
    have counted := fits.defaults marked
    simpa [Conditional.ofClause, Clause.form, kind] using counted
  | @default cond oneLine outer kind form depth =>
    -- The switch is marked before its default is there.
    obtain ⟨fits, around⟩ := fit
    have switch : cond.isSwitch = true := by simp [Conditional.isSwitch, form]
    have others := fits.filling.others
    have opening := fits.filling.opening
    rw [form] at around others opening
    refine ⟨own (by simp [kind]), ⟨⟨opening, others, fun _ => fits.filling.placeholder switch,
      fits.filling.post, fits.filling.inside⟩, fun _ => rfl, fun _ => ?_⟩, around.change rfl rfl⟩
    -- No default was counted, and the one that is open counts from now on.
    have none : cond.defaults = 0 := fits.defaults_eq.1 form
    have arm : (Conditional.ofClause clause ns : Conditional Stmt).form = .default := by
      simp [Conditional.ofClause, Clause.form, kind]
    rw [arm, if_pos rfl, if_pos rfl]
    show cond.defaults + 1 = 1
    omega

/-- The block of a case, or of a default, is added to a switch in the making. -/
theorem filling_addArm {switch : Conditional Stmt} (filling : switch.Filling)
    (isSwitch : switch.isSwitch = true) {block : Block Stmt}
    (kind : (∃ value, block.clause.kind = .caseOf value) ∨ block.clause.kind = .byDefault)
    (inside : ∀ s ∈ block.body, s.WellNested) : (addBlock switch block).Filling := by
  -- A switch has cases and defaults, and the new block is one of them.
  have others := filling.others
  refine ⟨filling.opening, ?_, filling.placeholder, filling.post,
    Conditional.forall_addBlock filling.inside inside⟩
  have form : switch.form = .switch ∨ switch.form = .switchDefault := by
    simpa [Conditional.isSwitch] using isSwitch
  have each : ∀ kind ∈ switch.kinds, (∃ value, kind = .caseOf value) ∨ kind = .byDefault := by
    rcases form with form | form
    · rwa [form] at others
    · rwa [form] at others
  have all : ∀ kind ∈ (addBlock switch block).kinds,
      (∃ value, kind = .caseOf value) ∨ kind = .byDefault := by
    simp only [addBlock, Conditional.kinds, List.map_append, List.forall_mem_append]
    exact ⟨each, by simpa using kind⟩
  rcases form with form | form
  · simp only [addBlock, form]
    exact all
  · simp only [addBlock, form]
    exact all

/-- The block of a case goes to its switch, which has what it needs with it. -/
theorem allFit_arm {cond switch : Conditional Stmt} {oneLine waiting : Bool} {outer : List Frame}
    (fit : Frame.AllFit none (.conditional cond oneLine :: .conditional switch waiting :: outer))
    (form : cond.form = .case ∨ cond.form = .default) :
    Frame.AllFit none
      (.conditional (addBlock switch (closed cond).first) waiting :: outer) := by
  -- The block is taken from the case, and what was counted inside is counted in the switch.
  obtain ⟨arm, fits, around⟩ := fit
  have filling : (closed cond).Filling := (arm.marked 0 false).filling
  have isSwitch : switch.isSwitch = true := by
    apply fits.arm
    rcases form with form | form <;> simp [form, Form.isArm]
  have inside := filling.inside _ (List.mem_cons_self ..)
  have kind := (closed cond).first.clause.kind_of_form
  rw [filling.opening, closed_form] at kind
  -- A default counts now that it is in the switch, and counted before as it was inside.
  have counted := fits.defaults isSwitch
  have same : (addBlock switch (closed cond).first).form = switch.form := rfl
  have count : (addBlock switch (closed cond).first).defaults = switch.defaults +
      [(closed cond).first.clause.kind].count .byDefault := by
    simp [Conditional.defaults, Conditional.kinds, addBlock]
  rcases form with form | form
  · -- A case changes no count.
    simp only [form, Form.opening] at kind counted
    obtain ⟨value, isCase⟩ := kind
    refine ⟨.alone (filling_addArm fits.filling isSwitch (.inl ⟨value, isCase⟩) inside)
      fun _ => ?_, around⟩
    rw [count, isCase, same]
    simpa using counted
  · -- A default is the one that was announced.
    simp only [form, Form.opening] at kind counted
    refine ⟨.alone (filling_addArm fits.filling isSwitch (.inr kind) inside) fun _ => ?_, around⟩
    rw [count, kind, same]
    simpa using counted

/-- A function that is defined is well formed. -/
theorem wellNested_define {table : ScopeTable} (nested : table.WellNested) {func : Function Stmt}
    (body : ∀ s ∈ func.body, s.WellNested) :
    (table.define (.function {
      decl := func.decl, body := if func.decl.isInline then func.body else [],
      entry := none }) .global).WellNested := by
  -- The function is the one that is defined, or was there.
  intro symbol holds
  obtain same | old := holds.of_define
  · cases same
    rw [if_pos holds.1]
    exact body
  · exact nested symbol old

/-- Leaving a scope leaves the symbols. -/
theorem wellNested_pop {table later : ScopeTable} {ns : Namespace} (nested : table.WellNested)
    (popped : table.pop = .ok (ns, later)) : later.WellNested := by
  -- Only the open scope is changed.
  unfold ScopeTable.pop at popped
  split at popped
  · cases popped
    exact nested
  · cases popped

/-- Every transition keeps the trees that are made well formed. -/
theorem Transition.formed {item : Item} (moves : Transition s (.item item) s')
    (before : s.Formed) : s'.Formed := by
  -- By cases on the transition, for the containers, the output and what is to be read.
  obtain ⟨fit, output, queue⟩ := before
  cases moves with
  | types decl => exact ⟨fit, output, queue⟩
  | passes isFlat after notes read added =>
    -- What is passed on is flat, and an initializer may be read along.
    refine added.formed (.item after) ⟨fit, output, ?_⟩
    obtain rfl | ⟨init, same⟩ := read
    · exact queue
    · rw [same] at queue
      exact (List.forall_mem_cons.1 queue).2
  | tree tree => exact (tree item rfl).elim
  | function frames bare next =>
    rw [next] at queue
    exact ⟨⟨rfl, nofun, rfl⟩, output, (List.forall_mem_cons.1 queue).2⟩
  | block starts follows =>
    -- The conditional of the block has what it needs so far.
    obtain ⟨fits, around⟩ := starts.allFit fit
    refine ⟨⟨fits.marked 1 true, ?_⟩, output, openQueue_forall follows ⟨_, rfl⟩ queue⟩
    rw [opened, Conditional.modifyCurrent_form]
    exact around
  | deepens frames takes =>
    -- A brace is an item like any other.
    rw [frames] at fit
    exact ⟨(fit.withDepth _).add (by simpa using takes) (.item rfl), output, queue⟩
  | opensBare | closesBare => exact ⟨fit, Stmt.wellNested_snoc output (.item rfl), queue⟩
  | rises frames takes =>
    rw [frames] at fit
    exact ⟨(fit.withDepth _).add (by simpa using takes) (.item rfl), output, queue⟩
  | endsFunction frames last popped added =>
    -- The body of a function is well formed when it is finished.
    rw [frames] at fit
    obtain ⟨-, body, around⟩ := fit
    exact (added.formed (.function body) ⟨around, output, queue⟩).cascaded _
  | waits frames =>
    -- An `if` that waits is well formed so far.
    rw [frames] at fit
    refine ⟨⟨fit.1.marked 0 false, ?_⟩, output, queue⟩
    rw [closed_form]
    exact fit.2
  | @endsConditional _ cond cond' _ _ _ _ queue' _ frames last popped ends added =>
    rw [frames] at fit
    obtain ⟨fits, around⟩ := fit
    -- To the containers around it, it is like any other statement.
    obtain ⟨plain, left⟩ := ends.isArm
    have later : ∀ stmt ∈ queue', ∃ item, stmt = .item item :=
      fun stmt inside => queue stmt (left stmt inside)
    exact (added.formed (ends.wellNested fits) ⟨around.change plain rfl, output, later⟩).cascaded _
  | endsArm frames last popped form single =>
    -- The block of a case goes to its switch.
    rw [frames] at fit
    refine Formed.cascaded ?_ _
    exact ⟨allFit_arm fit form, output, queue⟩

/-- Every transition keeps what inline functions hold well formed. -/
theorem Transition.table {item : Item} (moves : Transition s (.item item) s')
    (before : s.WellNested) : s'.session.scopes.WellNested := by
  -- By cases on the transition; only a finished function is new to the table.
  obtain ⟨⟨fit, -, -⟩, table⟩ := before
  cases moves with
  | types decl =>
    exact fun func holds => table func (holds.of_define.resolve_left fun same => nomatch same)
  | passes isFlat after notes read added =>
    -- What is noted for a statement is no inline function.
    rw [added.session]
    exact fun func holds => table func (notes.inlines holds)
  | tree tree => exact (tree item rfl).elim
  | function | block | deepens | opensBare => exact table
  | closesBare frames bare popped => exact wellNested_pop table popped
  | rises frames takes deep popped => exact wellNested_pop table popped
  | endsFunction frames last popped added =>
    -- The function is defined with a body that is well formed.
    rw [frames] at fit
    rw [cascaded_session, added.session]
    exact wellNested_define (wellNested_pop table popped) fit.2.1
  | waits frames last popped => exact wellNested_pop table popped
  | endsConditional frames last popped ends added =>
    rw [cascaded_session, added.session]
    exact wellNested_pop table popped
  | endsArm frames last popped =>
    rw [cascaded_session]
    exact wellNested_pop table popped

/-- At all times the trees that were made are well formed, and what inline functions hold stays so. -/
theorem Visits.formed (visits : s.Visits s') (before : s.Formed) :
    s'.Formed ∧ (s.session.scopes.WellNested → s'.session.scopes.WellNested) := by
  -- By induction on the statements that are read: each one is flat, for only flat ones are left.
  induction visits with
  | refl => exact ⟨before, id⟩
  | tail _ advances ih =>
    obtain ⟨⟨frames, output, queue⟩, table⟩ := ih
    obtain ⟨queued, ran⟩ := advances
    obtain ⟨⟨item, rfl⟩, rest⟩ := List.forall_mem_cons.1 (queued ▸ queue)
    have moves := step_leads _ ran
    exact ⟨moves.formed ⟨frames, output, rest⟩,
      fun nested => moves.table ⟨⟨frames, output, rest⟩, table nested⟩⟩

/-- At all times everything that was made is well formed. -/
theorem Visits.wellNested (visits : s.Visits s') (before : s.WellNested) : s'.WellNested := by
  -- What was made and the table are kept well formed by the same run.
  obtain ⟨formed, table⟩ := visits.formed before.toFormed
  exact ⟨formed, table before.table⟩

end Nesting

/-- Whatever the session, the trees that nesting makes of flat items are well formed. -/
theorem nest_wellNested {stmts nested : List Stmt} {start made : Session}
    (flat : ∀ stmt ∈ stmts, ∃ item, stmt = .item item) (ran : nest stmts start = .ok nested made) :
    ∀ stmt ∈ nested, stmt.WellNested := by
  -- Nesting ends in a state that is formed, with the trees for its output.
  unfold nest at ran
  cases finished : Nesting.run { session := start, queue := stmts } with
  | error => simp [finished] at ran
  | ok output state =>
    obtain ⟨visits, -, -, -, rfl⟩ := Nesting.run_eq_ok finished
    simp only [finished, EStateM.Result.ok.injEq] at ran
    obtain ⟨rfl, -⟩ := ran
    exact (visits.formed ⟨rfl, nofun, flat⟩).1.output

end CrossAsm
