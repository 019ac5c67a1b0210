import CrossAsm.Proofs.Nesting.Declarations
import CrossAsm.Proofs.Nesting.Transitions

/-! The entries of functions among the names that are placed. A name is compared only with the
symbol that it leads to at the time, so that a function and a label share a name only where a type
took it over in between. -/

namespace CrossAsm

/-- A tree in which a name is placed: as the entry of a function that is not spliced in, or as a
label or a global variable. -/
inductive Stmt.Places (name : String) : Bool → Stmt → Prop
  | label {l : Label} (named : l.name = name) : Places name false (.item (.label l))
  | var {v : Variable} (named : v.name = name) (global : v.ns = .global) :
    Places name false (.item (.var v))
  | entry {func : Function Stmt} (named : func.decl.name = name)
    (own : func.decl.isInline = false) : Places name true (.function func)
  | body {entry : Bool} {func : Function Stmt} {stmt : Stmt} (inside : stmt ∈ func.body)
    (places : Places name entry stmt) : Places name entry (.function func)
  | block {entry : Bool} {cond : Conditional Stmt} {block : Block Stmt} {stmt : Stmt}
    (of : block ∈ cond.blocks) (inside : stmt ∈ block.body) (places : Places name entry stmt) :
    Places name entry (.conditional cond)

variable {name : String} {entry : Bool}

/-- A conditional in which a name is placed. -/
def Conditional.Places (name : String) (entry : Bool) (cond : Conditional Stmt) : Prop :=
  ∃ block ∈ cond.blocks, ∃ stmt ∈ block.body, stmt.Places name entry

/-- A container in the making in which a name is placed. -/
def Frame.Places (name : String) (entry : Bool) : Frame → Prop
  | .function func _ => ∃ stmt ∈ func.body, stmt.Places name entry
  | .conditional cond _ => cond.Places name entry

/-! ### Containers -/

namespace Conditional

variable {cond : Conditional Stmt}

/-- A conditional is placed where it holds the name. -/
theorem places_conditional :
    (Stmt.conditional cond).Places name entry ↔ cond.Places name entry := by
  -- A conditional has no other way to place a name than by its blocks.
  constructor
  · rintro (_ | _)
    exact ⟨_, ‹_›, _, ‹_›, ‹_›⟩
  · rintro ⟨block, of, stmt, inside, places⟩
    exact .block of inside places

/-- A change of the block being read places only what comes to the block. -/
theorem places_modifyCurrent {f : Block Stmt → Block Stmt} {new : Prop}
    (more : ∀ block, (∃ stmt ∈ (f block).body, stmt.Places name entry) →
      (∃ stmt ∈ block.body, stmt.Places name entry) ∨ new)
    (places : (cond.modifyCurrent f).Places name entry) : cond.Places name entry ∨ new := by
  -- If neither placed the name, no block would after the change.
  refine Classical.byContradiction fun neither => ?_
  obtain ⟨without, nothing⟩ := not_or.1 neither
  obtain ⟨block, of, here⟩ := places
  refine forall_modifyCurrent (P := fun block => ¬∃ stmt ∈ block.body, stmt.Places name entry)
    (fun block of here => without ⟨block, of, here⟩) (fun block none here => ?_) block of here
  exact (more block here).elim none nothing

/-- A block more places only what it holds. -/
theorem places_addBlock {block : Block Stmt}
    (places : (Nesting.addBlock cond block).Places name entry) :
    cond.Places name entry ∨ ∃ stmt ∈ block.body, stmt.Places name entry := by
  -- The block is the one that is added or was there.
  obtain ⟨other, of, here⟩ := places
  rcases List.mem_cons.1 of with rfl | later
  · exact .inl ⟨_, List.mem_cons_self, here⟩
  · rcases List.mem_append.1 later with before | last
    · exact .inl ⟨other, List.mem_cons_of_mem _ before, here⟩
    · obtain rfl := List.mem_singleton.1 last
      exact .inr here

/-- Opening or closing its last block places nothing in a conditional. -/
theorem places_marked {depth : Nat} {isOpen : Bool}
    (places : ({ cond with depth }.modifyCurrent fun block => { block with isOpen }).Places
      name entry) : cond.Places name entry := by
  -- The body of the block is the same.
  have same : ∀ block : Block Stmt,
      (∃ stmt ∈ ({ block with isOpen } : Block Stmt).body, stmt.Places name entry) →
        (∃ stmt ∈ block.body, stmt.Places name entry) ∨ False := fun _ => .inl
  exact (places_modifyCurrent same places).resolve_right id

end Conditional

namespace Frame

variable {frame : Frame}

/-- What is added to a container may place a name in it. -/
theorem places_add {stmt : Stmt} (places : (frame.add [stmt]).Places name entry) :
    frame.Places name entry ∨ stmt.Places name entry := by
  -- The statement comes to the body of the function or of the open block.
  have behind : ∀ body : List Stmt, (∃ s ∈ body ++ [stmt], s.Places name entry) →
      (∃ s ∈ body, s.Places name entry) ∨ stmt.Places name entry := by
    rintro body ⟨s, inside, here⟩
    rcases List.mem_append.1 inside with before | last
    · exact .inl ⟨s, before, here⟩
    · obtain rfl := List.mem_singleton.1 last
      exact .inr here
  cases frame with
  | function func depth => exact behind func.body places
  | conditional cond oneLine =>
    exact Conditional.places_modifyCurrent (fun block => behind block.body) places

@[simp]
theorem places_withDepth (depth : Nat) :
    (frame.withDepth depth).Places name entry ↔ frame.Places name entry := by
  -- The count of open blocks is no statement of the container.
  cases frame <;> exact Iff.rfl

@[simp]
theorem places_rested : frame.rested.Places name entry ↔ frame.Places name entry := by
  -- The mark that was waited for is no statement of the container.
  cases frame <;> exact Iff.rfl

end Frame

namespace Nesting

variable {s s' : Nesting}

/-- A name was placed by the statements read so far. -/
def Placed (name : String) (entry : Bool) (s : Nesting) : Prop :=
  (∃ stmt ∈ s.output, stmt.Places name entry) ∨ ∃ frame ∈ s.frames, frame.Places name entry

/-- The global symbol of a name. -/
def global? (name : String) (s : Nesting) : Option Symbol :=
  Entries.get? (.global, name) s.session.scopes.symbols

/-- Statements that place a name are there when it was placed, or are the one that is added. -/
theorem Adds.placed {stmt : Stmt} (added : Adds stmt s s') (placed : s'.Placed name entry) :
    s.Placed name entry ∨ stmt.Places name entry := by
  -- The name is placed in the output or in an open container, one of which has grown.
  cases added with
  | @inside frame outer frames takes =>
    obtain done | ⟨other, of, here⟩ := placed
    · exact .inl (.inl done)
    · rcases List.mem_cons.1 of with rfl | around
      · refine (Frame.places_add here).imp_left fun here => .inr ⟨frame, ?_, here⟩
        simp [frames]
      · exact .inl (.inr ⟨other, by simp [frames, around], here⟩)
  | outside frames =>
    obtain ⟨other, of, here⟩ | open_ := placed
    · rcases List.mem_append.1 of with before | last
      · exact .inl (.inl ⟨other, before, here⟩)
      · obtain rfl := List.mem_singleton.1 last
        exact .inr here
    · exact .inl (.inr open_)

/-- A mark that is put back places nothing. -/
theorem placed_cascaded {pos : Pos} (placed : (s.cascaded pos).Placed name entry) :
    s.Placed name entry := by
  -- The container that is put at rest places what it did.
  unfold cascaded at placed
  split at placed
  · exact placed
  · rename_i frame outer frames
    refine placed.imp_right ?_
    rintro ⟨other, of, here⟩
    rcases List.mem_cons.1 of with rfl | around
    · exact ⟨frame, by simp [frames], Frame.places_rested.1 here⟩
    · exact ⟨other, by simp [frames, around], here⟩

/-- A conditional that a clause opens or goes on with places nothing new. -/
theorem Starts.placed {ns : Namespace} {clause : Clause} {frames outer : List Frame}
    {cond : Conditional Stmt} {oneLine child : Bool}
    (starts : Starts ns clause frames cond oneLine outer)
    (placed : ∃ frame ∈ .conditional (opened cond) child :: outer, frame.Places name entry) :
    ∃ frame ∈ frames, frame.Places name entry := by
  -- The block that is opened is empty, and all else was there.
  have fresh : ¬(Conditional.ofClause clause ns).Places name entry := by
    rintro ⟨block, of, stmt, inside, -⟩
    obtain rfl := List.mem_singleton.1 of
    cases inside
  obtain ⟨frame, of, here⟩ := placed
  rcases List.mem_cons.1 of with rfl | around
  · have whole : cond.Places name entry := Conditional.places_marked here
    cases starts with
    | otherwise =>
      rcases Conditional.places_addBlock whole with before | ⟨stmt, inside, -⟩
      · exact ⟨_, List.mem_cons_self, before⟩
      · cases inside
    | _ => exact (fresh whole).elim
  · cases starts with
    | fresh | case => exact ⟨frame, around, here⟩
    | otherwise => exact ⟨frame, List.mem_cons_of_mem _ around, here⟩
    | default =>
      -- The switch has a default from now on, and is otherwise the same.
      rcases List.mem_cons.1 around with rfl | outside
      · exact ⟨_, List.mem_cons_self, here⟩
      · exact ⟨frame, List.mem_cons_of_mem _ outside, here⟩

/-- An item that declares nothing places nothing where it is passed on. -/
theorem Carries.not_places {item item' : Item} {queue queue' : List Stmt} {frames : List Frame}
    (carried : Carries item queue item' queue') (quiet : declares frames (.item item) = false) :
    ¬(Stmt.item item').Places name entry := by
  -- By what is passed on; the items that could place a name declare one.
  rintro (_ | _)
  · cases carried
    cases quiet
  · cases carried with
    | filled | unfilled => cases quiet
    | same other => exact other _ rfl

/-- A flat statement that declares nothing places nothing. -/
theorem Transition.placed {item : Item} (moves : Transition s (.item item) s')
    (quiet : declares s.frames (.item item) = false) (placed : s'.Placed name entry) :
    s.Placed name entry := by
  -- By cases on the transition: what is added is a brace or an item that places nothing.
  have begins : ∀ pos, ¬(Stmt.item (.scopeBegin pos)).Places name entry := fun _ => nofun
  have ends : ∀ pos, ¬(Stmt.item (.scopeEnd pos)).Places name entry := fun _ => nofun
  cases moves with
  | types decl => cases quiet
  | passes before after notes read added carried =>
    -- What is passed on is added to a container or outside, and places nothing itself.
    exact (added.placed placed).resolve_right (carried.not_places quiet)
  | tree tree => exact (tree item rfl).elim
  | function frames bare queue =>
    -- A function that is opened has no statements yet.
    simpa [Placed, reading, frames, Frame.Places] using placed
  | block starts follows => exact placed.imp_right starts.placed
  | deepens frames takes =>
    -- A brace is added to the innermost container.
    simp only [Placed, reading, frames, List.mem_cons, exists_eq_or_imp] at placed ⊢
    refine placed.imp_right (Or.imp_left fun here => ?_)
    simpa [begins] using Frame.places_add here
  | opensBare frames =>
    simpa [Placed, reading, or_and_right, exists_or, begins] using placed
  | closesBare frames bare popped =>
    simpa [Placed, reading, or_and_right, exists_or, ends] using placed
  | rises frames takes deep popped =>
    simp only [Placed, reading, frames, List.mem_cons, exists_eq_or_imp] at placed ⊢
    refine placed.imp_right (Or.imp_left fun here => ?_)
    simpa [ends] using Frame.places_add here
  | endsFunction frames last popped added =>
    -- Closing the function would declare it, which this statement does not do.
    simp only [declares, frames, decide_eq_false_iff_not] at quiet
    omega
  | waits frames last popped form next =>
    -- An `if` that waits for its `else` keeps its statements.
    simp only [Placed, reading, frames, List.mem_cons, exists_eq_or_imp] at placed ⊢
    exact placed.imp_right (Or.imp_left Conditional.places_marked)
  | @endsConditional pos cond cond' oneLine outer ns table queue s' frames last popped ends added =>
    -- The conditional stands where its container stood.
    have same : cond'.Places name entry → cond.Places name entry := by
      generalize s.queue = unread at ends
      cases ends <;> exact Conditional.places_marked
    have before := added.placed (placed_cascaded placed)
    simp only [Placed, reading, frames, List.mem_cons, exists_eq_or_imp] at before ⊢
    -- It was placed outside, further out, or in the conditional.
    rcases before with (done | around) | here
    · exact .inl done
    · exact .inr (.inr around)
    · exact .inr (.inl (same (Conditional.places_conditional.1 here)))
  | @endsArm pos cond switch oneLine waiting outer ns table frames last popped form single =>
    -- The one block of a case goes to its switch.
    have before := placed_cascaded placed
    simp only [Placed, reading, frames, List.mem_cons, exists_eq_or_imp] at before ⊢
    rcases before with done | here | around
    · exact .inl done
    · rcases Conditional.places_addBlock here with here | inside
      · exact .inr (.inr (.inl here))
      · have arm : (closed cond).Places name entry := ⟨_, List.mem_cons_self, inside⟩
        exact .inr (.inl (Conditional.places_marked arm))
    · exact .inr (.inr (.inr around))

/-! ### Declarations -/

/-- A symbol that may stand under a name: none there is placed in another way. -/
def Fits (symbol : Symbol) (s : Nesting) : Prop :=
  ∀ existing, s.global? symbol.name = some existing → clashes existing symbol = false

/-- What a statement does with a name that is placed in one way: it leaves the name alone, or it
declares a symbol that fits and places the name as that symbol does. -/
inductive Declares (name : String) (s s' : Nesting) : Prop
  | leaves (same : s'.global? name = s.global? name)
    (placed : ∀ entry, s'.Placed name entry → s.Placed name entry)
  | places {symbol : Symbol} {entry : Bool} (named : symbol.name = name)
    (kind : placedAsEntry symbol = some entry) (fits : s.Fits symbol)
    (now : s'.global? name = some symbol)
    (placed : ∀ other, s'.Placed name other → s.Placed name other ∨ other = entry)

/-- A symbol that is claimed fits. -/
theorem claimGlobal_fits (symbol : Symbol) (pos : Pos) :
    Leads (claimGlobal symbol pos) s fun s' => s' = s ∧ s.Fits symbol := by
  -- The name is free, or leads to a symbol that was found not to clash.
  refine .read ?_
  rw [ScopeTable.lookup?_global]
  split
  · rename_i owner existing found
    obtain ⟨_, here, same⟩ := Option.map_eq_some_iff.1 found
    cases same
    split
    · exact .fail _
    · rename_i apart
      refine .done ⟨rfl, fun other there => ?_⟩
      cases here.symm.trans there
      simpa using apart
  · rename_i found
    refine .done ⟨rfl, fun other there => ?_⟩
    cases (Option.map_eq_none_iff.1 found).symm.trans there

/-- So does one that is claimed where it is declared, if that is globally. -/
theorem claimIn_fits (ns : Namespace) (symbol : Symbol) (pos : Pos) :
    Leads (claimIn ns symbol pos) s fun s' => s' = s ∧ (ns = .global → s.Fits symbol) := by
  -- Only a global name is claimed.
  unfold claimIn
  split
  · refine (claimGlobal_fits symbol pos).mono ?_
    rintro s' ⟨rfl, fits⟩
    exact ⟨rfl, fun _ => fits⟩
  · rename_i inner
    exact .done ⟨rfl, fun global => (inner global).elim⟩

/-- A statement is added with a symbol of its own, which fits where it is global. -/
theorem Adds.declares {stmt : Stmt} {middle : Nesting} {symbol : Symbol} {ns : Namespace}
    {table : ScopeTable} {own : Bool} (added : Adds stmt middle s')
    (scopes : middle.session.scopes = table.define symbol ns)
    (symbols : table.symbols = s.session.scopes.symbols)
    (contents : ∀ entry, middle.Placed name entry → s.Placed name entry)
    (kind : placedAsEntry symbol = some own) (fits : ns = .global → s.Fits symbol)
    (places : ∀ entry, stmt.Places name entry →
      s.Placed name entry ∨ (ns, symbol.name) = (.global, name) ∧ entry = own) :
    Declares name s s' := by
  -- The name is that of the symbol, or it leads to what it led to.
  have table' : s'.session.scopes = table.define symbol ns := by
    rw [added.session]
    exact scopes
  have now : s'.global? name = if (ns, symbol.name) = (.global, name) then some symbol
      else s.global? name := by
    rw [global?, table', ScopeTable.get?_define, symbols]
    rfl
  have placed : ∀ entry, s'.Placed name entry →
      s.Placed name entry ∨ (ns, symbol.name) = (.global, name) ∧ entry = own := by
    intro entry placed
    rcases added.placed placed with before | here
    · exact .inl (contents entry before)
    · exact places entry here
  by_cases same : (ns, symbol.name) = (.global, name)
  · rw [if_pos same] at now
    obtain ⟨rfl, named⟩ := Prod.mk.inj same
    exact .places named kind (fits rfl) now fun other here =>
      (placed other here).imp_right And.right
  · rw [if_neg same] at now
    exact .leaves now fun entry here => (placed entry here).resolve_right fun new => same new.1

/-- A mark that is put back declares nothing. -/
theorem Declares.cascaded (declares : Declares name s s') (pos : Pos) :
    Declares name s (s'.cascaded pos) := by
  -- Putting back a mark touches neither the table nor what is placed.
  have same : (s'.cascaded pos).global? name = s'.global? name := by
    rw [global?, cascaded_session]
    rfl
  cases declares with
  | leaves kept placed =>
    exact .leaves (same.trans kept) fun entry here => placed entry (placed_cascaded here)
  | places named kind fits now placed =>
    exact .places named kind fits (same.trans now) fun other here =>
      placed other (placed_cascaded here)

/-- A variable is declared where it stands. -/
theorem addVariable_declares (var : Variable) : Leads (addVariable var) s (Declares name s) := by
  -- The name is claimed, defined, and the variable emitted, with its initializer or without.
  have declared : ∀ (var' : Variable) (queue : List Stmt),
      Leads (declareVariable var') (s.reading s.session.scopes queue s.frames)
        (Declares name s) := by
    intro var' queue
    refine .read ((claimIn_fits _ _ _).andThen fun _ claimed claim => .change ?_)
    obtain ⟨rfl, fits⟩ := claim
    refine (emit_leads _).mono fun s' added => ?_
    refine Adds.declares added rfl rfl (fun _ => id) rfl fits ?_
    rintro _ (_ | ⟨named, global⟩)
    exact .inr ⟨Prod.ext global named, rfl⟩
  refine .read ?_
  split
  · exact .change (declared _ _)
  · exact declared _ _

/-- A label is declared globally. -/
theorem declareLabel_declares (label : Label) :
    Leads (declareLabel label) s (Declares name s) := by
  -- The name is claimed, defined, and the label emitted.
  refine (claimGlobal_fits _ _).andThen fun _ claimed claim => .change ?_
  obtain ⟨rfl, fits⟩ := claim
  refine (emit_leads _).mono fun s' added => ?_
  refine Adds.declares added rfl rfl (fun _ => id) rfl (fun _ => fits) ?_
  rintro _ (⟨named⟩ | _)
  exact .inr ⟨Prod.ext rfl named, rfl⟩

/-- A function is declared globally when its block is closed. -/
theorem close_declares {pos : Pos} (ends : declares s.frames (.item (.scopeEnd pos)) = true) :
    Leads (close pos) s (Declares name s) := by
  -- By the innermost container, which has to be the function in its last block.
  refine .read ?_
  split
  · -- Outside of all containers nothing is declared at the end of a block.
    rename_i frames
    simp [declares, frames] at ends
  · rename_i func depth outer frames
    refine popScope_leads.andThen fun _ middle left => ?_
    obtain ⟨ns, table, popped, rfl⟩ := left
    split
    · -- A block inside of the function is not the last one.
      rename_i deep
      simp only [declares, frames, decide_eq_true_eq] at ends
      omega
    · -- The name of the function is claimed and declared, and then the function is put where its
      -- container stood.
      refine .change ((claimGlobal_fits _ _).andThen fun _ claimed claim => .change ?_)
      obtain ⟨rfl, fits⟩ := claim
      refine (emit_leads _).andThen fun _ middle added => (cascade_leads pos).mono ?_
      rintro s' rfl
      have symbols := pop_symbols popped
      refine Declares.cascaded (Adds.declares added rfl symbols ?_ rfl (fun _ => ?_) ?_) pos
      · -- The function's container is gone.
        simp only [Placed, reading, frames, List.mem_cons, exists_eq_or_imp]
        exact fun _ placed => placed.imp_right .inr
      · intro existing here
        exact fits existing (by rw [← here, global?, global?, ← symbols]; rfl)
      · -- What is in the function was in the container; the function itself is new.
        rintro _ (_ | _ | ⟨named, own⟩ | ⟨inside, places⟩)
        · exact .inr ⟨Prod.ext rfl named, by simp [own]⟩
        · exact .inl (.inr ⟨.function func depth, by simp [frames], _, inside, places⟩)
  · -- Neither is anything at the end of a conditional.
    rename_i frames
    simp [declares, frames] at ends

/-- A flat statement that is no type declares at most one symbol, which fits. -/
theorem step_declares {item : Item} (other : ∀ decl, item ≠ .typeDecl decl) :
    Leads (step (.item item)) s (Declares name s) := by
  -- What declares nothing leaves the table; the rest are variables, labels and ends of functions.
  by_cases quiet : declares s.frames (.item item) = false
  · intro u s' ran
    refine .leaves ?_ fun entry => (step_leads _ ran).placed quiet
    rw [global?, step_keeps ran quiet]
    rfl
  · rw [Bool.not_eq_false] at quiet
    cases item with
    | var var => exact addVariable_declares var
    | label label => exact declareLabel_declares label
    | typeDecl decl => exact (other decl rfl).elim
    | scopeEnd pos => exact close_declares quiet
    | _ => cases quiet

/-! ### The two ways to place a name -/

/-- A name that leads to a symbol that is placed as the name was. -/
def Settled (name : String) (s : Nesting) : Prop :=
  ∀ entry, s.Placed name entry →
    ∃ symbol, s.global? name = some symbol ∧ placedAsEntry symbol = some entry

/-- The next statement declares a type globally under a name that was placed in one way only. -/
structure TakesOver (name : String) (decl : TypeDecl) (s : Nesting) : Prop where
  /-- The declaration is next. -/
  next : ∃ rest, s.queue = .item (.typeDecl decl) :: rest
  /-- It has the name. -/
  named : decl.type.name = name
  /-- It stands outside of every block. -/
  global : s.session.scopes.current = .global
  /-- The name was placed in one way only. -/
  once : s.Placed name true ↔ ¬s.Placed name false

/-- A settled name was not placed in both ways. -/
theorem Settled.not_both (settled : s.Settled name) :
    ¬(s.Placed name true ∧ s.Placed name false) := by
  -- The name leads to one symbol, which is placed in one way.
  rintro ⟨entry, other⟩
  obtain ⟨symbol, here, kind⟩ := settled true entry
  obtain ⟨_, there, kind'⟩ := settled false other
  cases here.symm.trans there
  cases kind.symm.trans kind'

/-- A declaration that fits keeps a name settled. -/
theorem Settled.declares (settled : s.Settled name) (declares : Declares name s s') :
    s'.Settled name := by
  -- A name that is declared again is declared in the way it was.
  cases declares with
  | leaves same placed =>
    intro entry here
    rw [same]
    exact settled entry (placed entry here)
  | @places symbol own named kind fits now placed =>
    intro entry here
    refine ⟨symbol, now, ?_⟩
    rcases placed entry here with before | rfl
    · -- What the name led to was placed in the same way.
      obtain ⟨existing, there, kind'⟩ := settled entry before
      have apart := fits existing (named ▸ there)
      simp only [clashes, kind', kind, bne_eq_false_iff_eq] at apart
      rw [kind, apart]
    · exact kind

/-- A type keeps a name settled, unless it takes it over. -/
theorem Settled.retyped (settled : s.Settled name) {decl : TypeDecl} {rest : List Stmt}
    (queued : s.queue = .item (.typeDecl decl) :: rest) :
    Settled name (s.reading (s.session.scopes.define (.type decl.type) s.session.scopes.current)
      rest s.frames) ∨ s.TakesOver name decl := by
  -- A type hides what the name led to, which matters if it is global and was placed.
  by_cases same : (s.session.scopes.current, decl.type.name) = (.global, name)
  · obtain ⟨global, named⟩ := Prod.mk.inj same
    by_cases some : s.Placed name true ∨ s.Placed name false
    · refine .inr ⟨⟨rest, queued⟩, named, global, ?_⟩
      have apart := settled.not_both
      refine ⟨fun entry other => apart ⟨entry, other⟩, fun none => ?_⟩
      exact some.resolve_right none
    · -- Nothing was placed under the name.
      refine .inl fun entry here => (some ?_).elim
      cases entry with
      | true => exact .inl here
      | false => exact .inr here
  · refine .inl fun entry here => ?_
    obtain ⟨symbol, there, kind⟩ := settled entry here
    refine ⟨symbol, ?_, kind⟩
    exact (ScopeTable.get?_define _ _ _ _ _).trans ((if_neg same).trans there)

/-- One statement keeps a name settled, unless a type takes it over. -/
theorem Settled.advances (settled : s.Settled name)
    (flat : ∀ stmt ∈ s.queue, ∃ item, stmt = .item item) (advances : s.Advances s') :
    s'.Settled name ∨ ∃ decl, s.TakesOver name decl := by
  -- The statement is a type or declares at most one symbol that fits.
  obtain @⟨stmt, rest, queued, ran⟩ := advances
  obtain ⟨item, rfl⟩ := flat stmt (queued ▸ List.mem_cons_self)
  have here : Settled name { s with queue := rest } := settled
  by_cases type : ∃ decl, item = .typeDecl decl
  · obtain ⟨decl, rfl⟩ := type
    obtain rfl := modify_eq_ok.1 ran
    exact (settled.retyped queued).imp_right fun taken => ⟨decl, taken⟩
  · exact .inl (here.declares (step_declares (fun decl same => type ⟨decl, same⟩) ran))

/-! ### Reading to the end -/

/-- A statement adds to those to be read at most the mark of a block without braces. -/
theorem Transition.forall_queue {P : Stmt → Prop} {stmt : Stmt} (moves : Transition s stmt s')
    (mark : ∀ pos, P (.item (.scopeEnd pos))) (each : ∀ stmt ∈ s.queue, P stmt) :
    ∀ stmt ∈ s'.queue, P stmt := by
  -- By cases on the transition, each of which drops statements or puts back a mark.
  have added : ∀ {stmt t t'}, Adds stmt t t' → t'.queue = t.queue := by
    rintro stmt t t' (_ | _) <;> rfl
  have marked : ∀ {t : Nesting} {pos}, (∀ stmt ∈ t.queue, P stmt) →
      ∀ stmt ∈ (t.cascaded pos).queue, P stmt := by
    intro t pos before stmt inside
    unfold cascaded at inside
    split at inside
    · exact before stmt inside
    · rcases List.mem_append.1 inside with new | old
      · unfold Frame.marks at new
        split at new
        · obtain rfl := List.mem_singleton.1 new
          exact mark pos
        · cases new
      · exact before stmt old
  -- Most transitions take the statement and leave the rest.
  cases moves with
  | types | deepens | opensBare | closesBare | rises | waits => exact each
  | passes before after notes read new carried =>
    -- An initializer may be dropped with its variable.
    rw [added new]
    rcases read with same | ⟨init, taken⟩
    · exact same ▸ each
    · rw [taken] at each
      exact (List.forall_mem_cons.1 each).2
  | tree tree new => exact added new ▸ each
  | function frames bare queue =>
    rw [queue] at each
    exact (List.forall_mem_cons.1 each).2
  -- The block of a clause is marked at its end.
  | block starts follows => exact openQueue_forall follows (mark _) each
  -- Whatever is closed may have a mark to be put back.
  | endsFunction frames last popped new => exact marked (added new ▸ each)
  | endsConditional frames last popped ends new =>
    refine marked (added new ▸ ?_)
    generalize s.queue = unread at ends each
    cases ends with
    | plain => exact each
    | trailing => exact (List.forall_mem_cons.1 each).2
  | endsArm => exact marked each

/-- What is still to be read was to be read at the start, or is a mark. -/
theorem Visits.queue_from (visits : s.Visits s') :
    ∀ stmt ∈ s'.queue, stmt ∈ s.queue ∨ ∃ pos, stmt = .item (.scopeEnd pos) := by
  -- By induction on the statements that are read.
  induction visits with
  | refl => exact fun _ => .inl
  | tail _ advances ih =>
    obtain ⟨queued, ran⟩ := advances
    rw [queued] at ih
    exact (step_leads _ ran).forall_queue (fun pos => .inr ⟨pos, rfl⟩)
      (List.forall_mem_cons.1 ih).2

/-- A name stays settled while statements are read, unless a type takes it over on the way. -/
theorem Visits.settled (visits : s.Visits s') (flat : ∀ stmt ∈ s.queue, ∃ item, stmt = .item item)
    (settled : s.Settled name) :
    s'.Settled name ∨ ∃ middle decl, s.Visits middle ∧ middle.TakesOver name decl := by
  -- By induction on the statements that are read, as long as no type takes the name over.
  induction visits with
  | refl => exact .inl settled
  | @tail middle last earlier advances ih =>
    rcases ih with here | taken
    · have flat' : ∀ stmt ∈ middle.queue, ∃ item, stmt = .item item := by
        intro stmt inside
        rcases Visits.queue_from earlier stmt inside with old | ⟨pos, rfl⟩
        · exact flat stmt old
        · exact ⟨_, rfl⟩
      exact (here.advances flat' advances).imp_right fun ⟨decl, taken⟩ =>
        ⟨middle, decl, earlier, taken⟩
    · exact .inr taken

end Nesting

/-- A name that nesting leaves both to a function that is not spliced in and to a label or a global
variable, whatever else bears it, was taken over by a type in between: on the way through the source
a type of that name is declared globally when the name was placed in one of the two ways only. -/
theorem shared_entry_taken_over {stmts nested : List Stmt} {session session' : Session}
    (flat : ∀ stmt ∈ stmts, ∃ item, stmt = .item item)
    (ran : nest stmts session = .ok nested session')
    (entry : ∃ stmt ∈ nested, stmt.Places name true)
    (placed : ∃ stmt ∈ nested, stmt.Places name false) :
    ∃ middle decl, Nesting.Visits { session, queue := stmts } middle ∧
      middle.TakesOver name decl ∧ .item (.typeDecl decl) ∈ stmts := by
  -- A settled name is not placed in both ways, so that it was taken over on the way.
  unfold nest at ran
  cases finished : Nesting.run { session, queue := stmts } with
  | error => simp [finished] at ran
  | ok output state =>
    obtain ⟨visits, -, -, -, rfl⟩ := Nesting.run_eq_ok finished
    simp only [finished, EStateM.Result.ok.injEq] at ran
    obtain ⟨rfl, rfl⟩ := ran
    -- At the start nothing is placed; at the end the name is placed in both ways.
    have start : Nesting.Settled name { session, queue := stmts } := by
      rintro way (⟨stmt, inside, -⟩ | ⟨frame, inside, -⟩) <;> cases inside
    obtain settled | ⟨middle, decl, earlier, taken⟩ := visits.settled flat start
    · exact (settled.not_both ⟨.inl entry, .inl placed⟩).elim
    · refine ⟨middle, decl, earlier, taken, ?_⟩
      obtain ⟨rest, queued⟩ := taken.next
      have := earlier.queue_from (.item (.typeDecl decl)) (queued ▸ List.mem_cons_self)
      simpa using this

/-- The head of a function of a name that a label and an enumeration have, too. -/
def mainDecl : FunctionDecl := ⟨"main", .subroutine, false, [], default⟩

/-- A label, an enumeration and a function of one name. -/
def overtaken : List Stmt :=
  [.label ⟨"main", default⟩, .typeDecl ⟨.enum ⟨"main", [("a", 0)]⟩, default⟩,
    .functionDecl mainDecl, .scopeBegin default,
    .instruction (.unresolved .nop .none .global default), .scopeEnd default].map .item

/-- The label and the function are both there at the end. -/
theorem overtaken_nested : ∃ later, nest overtaken { cpu := .nmos } =
    .ok [.item (.label ⟨"main", default⟩), .function ⟨mainDecl,
      [.item (.instruction (.unresolved .nop .none ⟨["main"]⟩ default))], ⟨["main"]⟩⟩] later := by
  -- The nesting is evaluated, and compared statement by statement.
  have evaluated : succeedsWith (fun nested _ => Stmt.sameAll nested
      [.item (.label ⟨"main", default⟩), .function ⟨mainDecl,
        [.item (.instruction (.unresolved .nop .none ⟨["main"]⟩ default))], ⟨["main"]⟩⟩])
      (nest overtaken { cpu := .nmos }) = true := by
    decide +kernel
  obtain ⟨nested, later, ran, same⟩ := exists_of_succeedsWith evaluated
  exact ⟨later, (Stmt.sameAll_iff _ _).1 same ▸ ran⟩

/-- A name can be placed in both ways. -/
theorem overtaken_shares : ¬∀ (stmts nested : List Stmt) (later : Session) (name : String),
    (∀ stmt ∈ stmts, ∃ item, stmt = .item item) → nest stmts { cpu := .nmos } = .ok nested later →
    ¬((∃ stmt ∈ nested, stmt.Places name true) ∧ ∃ stmt ∈ nested, stmt.Places name false) := by
  -- What is nested places the name in both ways.
  intro apart
  obtain ⟨later, ran⟩ := overtaken_nested
  refine apart overtaken _ later "main" ?_ ran ⟨?_, ?_⟩
  · simp [overtaken]
  · exact ⟨_, List.mem_cons_of_mem _ List.mem_cons_self, .entry rfl rfl⟩
  · exact ⟨_, List.mem_cons_self, .label rfl⟩

/-- The enumeration is what took the name over. -/
theorem overtaken_by_enum :
    ∃ middle decl, Nesting.Visits { session := { cpu := .nmos }, queue := overtaken } middle ∧
      middle.TakesOver "main" decl ∧ .item (.typeDecl decl) ∈ overtaken := by
  -- The theorem is used of what the nesting was evaluated to.
  obtain ⟨later, ran⟩ := overtaken_nested
  refine shared_entry_taken_over ?_ ran ?_ ?_
  · simp [overtaken]
  · exact ⟨_, List.mem_cons_of_mem _ List.mem_cons_self, .entry rfl rfl⟩
  · exact ⟨_, List.mem_cons_self, .label rfl⟩

end CrossAsm
