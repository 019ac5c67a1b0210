import CrossAsm.Proofs.Lowering.Code
import CrossAsm.Proofs.Nesting.Order
import CrossAsm.Proofs.Resolve.Failures
import CrossAsm.Proofs.Resolve.Visits

/-! Well-formed trees stay well formed while they are resolved, also where an inline function is
spliced in; so every conditional that is met can be lowered, and no error of structure comes up. -/

namespace CrossAsm

/-- A statement is a call that leads to an inline function. -/
def Session.Expands (session : Session) (s : Stmt) (func : FunctionSymbol) : Prop :=
  ∃ c owner, s = .item (.call c) ∧
    session.scopes.lookup? c.name c.ns = some (owner, .function func) ∧ func.decl.isInline = true

/-- No other inline functions means none that is not well formed. -/
theorem Session.InlinesFrom.wellNested {session later : Session} (added : session.InlinesFrom later)
    (nested : session.scopes.WellNested) : later.scopes.WellNested := by
  -- Every inline function has the statements of one that was there.
  intro func holds
  obtain ⟨old, before, -, body⟩ := added func holds
  rw [← body]
  exact nested old before

namespace Resolve

/-! ### Splicing -/

section Splicing

variable (args : List (String × Expr)) (chain : List String)

/-- Statements are spliced one by one. -/
theorem spliceAll_eq (stmts : List Stmt) :
    spliceAll args chain stmts = stmts.map (splice args chain) := by
  -- By induction on the statements.
  induction stmts with
  | nil => rfl
  | cons stmt _ ih => rw [spliceAll, ih, List.map_cons]

/-- Blocks are spliced one by one. -/
theorem spliceBlocks_eq (blocks : List (Block Stmt)) :
    spliceBlocks args chain blocks = blocks.map (spliceBlock args chain) := by
  -- By induction on the blocks.
  induction blocks with
  | nil => rfl
  | cons block _ ih => rw [spliceBlocks, ih, List.map_cons]

/-- A conditional with arguments in place of names. -/
def spliceConditional (cond : Conditional Stmt) : Conditional Stmt :=
  { cond with
    first := spliceBlock args chain cond.first
    others := cond.others.map (spliceBlock args chain) }

/-- A conditional is spliced block by block. -/
theorem splice_conditional (cond : Conditional Stmt) :
    splice args chain (.conditional cond) = .conditional (spliceConditional args chain cond) := by
  -- Its blocks are the first one and the list of the others.
  rw [splice, spliceBlocks_eq, spliceConditional]

/-- The keyword of a clause, with arguments in place of names. -/
def spliceKind : ClauseKind → ClauseKind
  | .caseOf value => .caseOf (value.substitute args)
  | kind => kind

/-- Splicing a block splices its keyword and its statements. -/
theorem spliceBlock_parts (block : Block Stmt) :
    (spliceBlock args chain block).clause.kind = spliceKind args block.clause.kind ∧
      (spliceBlock args chain block).body = block.body.map (splice args chain) := by
  -- By cases on the keyword, of which only a case has a value.
  obtain ⟨⟨kind, pos⟩, body, isOpen⟩ := block
  rw [spliceBlock, spliceAll_eq]
  refine ⟨?_, rfl⟩
  cases kind <;> rfl

/-- A conditional keeps its shape when it is spliced in. -/
theorem wellFormed_splice {cond : Conditional Stmt} (formed : cond.WellFormed) :
    (spliceConditional args chain cond).WellFormed := by
  -- By the form of the conditional.
  have kinds : ∀ block : Block Stmt, _ := fun block => (spliceBlock_parts args chain block).1
  unfold Conditional.WellFormed at formed ⊢
  have same : (spliceConditional args chain cond).form = cond.form := rfl
  rw [same]
  -- A keyword is the same but for the value of a case.
  cases form : cond.form with
  | ifThen | whileLoop =>
    -- The first block keeps its test, and there is none behind it.
    rw [form] at formed
    obtain ⟨⟨test, kind⟩, others⟩ := formed
    exact ⟨⟨test, by rw [spliceConditional, kinds, kind]; rfl⟩, by simp [spliceConditional, others]⟩
  | ifElse =>
    -- The second block is still the `else`.
    rw [form] at formed
    obtain ⟨⟨test, kind⟩, otherwise, others, last⟩ := formed
    refine ⟨⟨test, by rw [spliceConditional, kinds, kind]; rfl⟩, spliceBlock args chain otherwise,
      by simp [spliceConditional, others], by rw [kinds, last]; rfl⟩
  | doWhile =>
    -- The test behind the loop stays.
    rw [form] at formed
    obtain ⟨kind, others, test⟩ := formed
    exact ⟨by rw [spliceConditional, kinds, kind]; rfl, by simp [spliceConditional, others], test⟩
  | forever =>
    rw [form] at formed
    obtain ⟨kind, others⟩ := formed
    exact ⟨by rw [spliceConditional, kinds, kind]; rfl, by simp [spliceConditional, others]⟩
  | switch | switchDefault =>
    -- The register stays, the first block stays empty, and the others are cases still.
    rw [form] at formed
    obtain ⟨⟨register, kind⟩, empty, arms⟩ := formed
    refine ⟨⟨register, by rw [spliceConditional, kinds, kind]; rfl⟩, ?_, fun block inside => ?_⟩
    · rw [spliceConditional, (spliceBlock_parts args chain cond.first).2, empty]
      rfl
    · obtain ⟨old, before, rfl⟩ := List.mem_map.1 inside
      rw [kinds]
      rcases arms old before with ⟨value, kind⟩ | kind
      · exact .inl ⟨value.substitute args, by rw [kind]; rfl⟩
      · exact .inr (by rw [kind]; rfl)
  | case | default =>
    -- A case on its own is no conditional, before or behind.
    rw [form] at formed
    exact formed

/-- A conditional has as many defaults when it is spliced in. -/
theorem defaults_splice (cond : Conditional Stmt) :
    (spliceConditional args chain cond).defaults = cond.defaults := by
  -- Splicing makes no keyword a default, and no default another keyword.
  have kinds : (spliceConditional args chain cond).kinds = cond.kinds.map (spliceKind args) := by
    simp only [Conditional.kinds, spliceConditional, List.map_map]
    exact List.map_congr_left fun block _ => (spliceBlock_parts args chain block).1
  have same : ∀ kind, (spliceKind args kind == .byDefault) = (kind == .byDefault) := by
    intro kind
    cases kind <;> rfl
  simp only [Conditional.defaults, kinds, List.count_eq_countP, List.countP_map]
  exact List.countP_congr fun kind _ => by rw [Function.comp_apply, same]

/-- A well-formed tree is well formed when it is spliced in. -/
theorem wellNested_splice {s : Stmt} (nested : s.WellNested) :
    (splice args chain s).WellNested := by
  -- By induction on the tree.
  induction nested with
  | @item item kept =>
    rw [splice]
    refine .item ?_
    cases item <;> exact kept
  | function body =>
    rw [splice]
    exact .function body
  | @conditional cond finished inside ih =>
    rw [splice_conditional]
    obtain ⟨formed, depth, noDefault, oneDefault⟩ := finished
    rw [← defaults_splice args chain] at noDefault oneDefault
    refine .conditional ⟨wellFormed_splice args chain formed, depth, noDefault, oneDefault⟩ ?_
    intro block present s mem
    -- Each block is one of the blocks before, spliced in.
    have spliced : (spliceConditional args chain cond).blocks =
        cond.blocks.map (spliceBlock args chain) := rfl
    rw [spliced] at present
    obtain ⟨old, before, rfl⟩ := List.mem_map.1 present
    rw [(spliceBlock_parts args chain old).2] at mem
    obtain ⟨stmt, there, rfl⟩ := List.mem_map.1 mem
    exact ih old before stmt there

end Splicing

/-! ### Rounds -/

variable {session after : Session} {s : Stmt} {out : Outcome}

/-- Code is well formed if the statements woven into it are. -/
theorem wellNested_woven {governed code : List Stmt} (woven : Woven governed code)
    (nested : ∀ x ∈ governed, x.WellNested) : ∀ x ∈ code, x.WellNested := by
  -- By induction on how the code is woven.
  induction woven with
  | nil => exact nested
  | generated made _ ih =>
    refine List.forall_mem_cons.2 ⟨?_, ih nested⟩
    cases made with
    | label | instruction => exact .item rfl
  | governed x _ ih =>
    obtain ⟨here, rest⟩ := List.forall_mem_cons.1 nested
    exact List.forall_mem_cons.2 ⟨here, ih rest⟩

/-- What a conditional governs stands in its blocks. -/
theorem wellNested_governed {cond : Conditional Stmt}
    (inside : ∀ block ∈ cond.blocks, ∀ s ∈ block.body, s.WellNested) :
    ∀ x ∈ cond.governed, x.WellNested := by
  -- A governed statement is in the first block or in one of the others.
  have first := inside cond.first (List.mem_cons_self ..)
  have others : ∀ {blocks : List (Block Stmt)}, blocks ⊆ cond.others →
      ∀ x ∈ blocks.flatMap Block.body, x.WellNested := by
    intro blocks among x mem
    obtain ⟨block, here, mem⟩ := List.mem_flatMap.1 mem
    exact inside block (List.mem_cons_of_mem _ (among here)) x mem
  unfold Conditional.governed
  split
  · exact List.forall_mem_append.2 ⟨first, others (List.take_subset _ _)⟩
  · exact others (List.Subset.refl _)
  · exact others (List.Subset.refl _)
  · exact first

/-- What a well-formed tree becomes is well formed, if an inline function that it is expanded to is. -/
theorem Turn.wellNested_of (turn : Turn session s out after) (nested : s.WellNested)
    (inlined : ∀ func, session.Expands s func → ∀ x ∈ func.body, x.WellNested) :
    ∀ x ∈ out.stmts, x.WellNested := by
  -- By the turn; what is lowered is woven of what the tree held.
  cases turn with
  | dropped => nofun
  | kept refines =>
    refine List.forall_mem_singleton.2 (.item ?_)
    cases refines <;> rfl
  | waits | called | returned => exact List.forall_mem_singleton.2 (.item rfl)
  | @expanded c owner func args found isInline fresh =>
    intro x inside
    rw [Outcome.replaced, spliceAll_eq] at inside
    obtain ⟨old, before, rfl⟩ := List.mem_map.1 inside
    exact wellNested_splice _ _ (inlined func ⟨c, owner, rfl, found, isInline⟩ old before)
  | subroutine subroutine ran =>
    cases nested with
    | function body => exact wellNested_woven (Lowering.function_emits subroutine ran).1 body
  | conditional ran =>
    cases nested with
    | conditional finished inside =>
      exact wellNested_woven (Lowering.conditional_emits ran).2.1 (wellNested_governed inside)

/-- What a well-formed tree becomes is well formed. -/
theorem Turn.wellNested (turn : Turn session s out after) (nested : s.WellNested)
    (table : session.scopes.WellNested) : ∀ x ∈ out.stmts, x.WellNested :=
  turn.wellNested_of nested fun func ⟨_, _, _, found, isInline⟩ =>
    table func ⟨isInline, _, Entries.mem_of_get? (ScopeTable.get?_of_lookup? found)⟩

/-- The turn of a well-formed tree ends in no error of structure. -/
theorem stmt_notStructural (nested : s.WellNested) :
    Guarded (fun _ => True) (fun e : Error => e.kind ≠ .structural) (stmt s) := by
  -- By cases on the tree, whose shape makes lowering succeed.
  cases nested with
  | @item item kept =>
    cases item with
    | functionDecl | clause | initializer | typeDecl => cases kept
    | call c =>
      exact Session.ask_guarded fun session => (call_fails session c).mono fun _ => And.right
    | instruction line =>
      exact Session.ask_guarded fun session =>
        (instruction_fails session line).mono fun _ => And.right
    | var var =>
      exact Session.ask_guarded fun session => (variableOf_fails session var).mono fun _ => And.right
    | _ => exact .pure _
  | function body =>
    exact .bind ((Lowering.function_succeeds _).mono fun _ => False.elim) fun _ => .pure _
  | conditional finished inside =>
    refine .bind (fun session _ => ?_) fun _ => .pure _
    obtain ⟨code, after, names, ran, -⟩ := lowering_run finished.formed session
    rw [ran]
    trivial

variable {stmts : List Stmt} {next : Outcome} {session' : Session}

/-- A round over well-formed trees leaves well-formed trees, in a session with well-formed inline
functions. -/
theorem round_wellNested (ran : round stmts session = .ok next session')
    (nested : ∀ x ∈ stmts, x.WellNested) (table : session.scopes.WellNested) :
    (∀ x ∈ next.stmts, x.WellNested) ∧ session'.scopes.WellNested := by
  refine ⟨?_, ((round_roundStep stmts).kept (.refl session) ran).wellNested table⟩
  -- Statement by statement, each in the session that those before it leave.
  induction stmts generalizing session next with
  | nil =>
    cases ran
    nofun
  | cons first others ih =>
    simp only [round, bind_eq_ok, pure_eq_ok] at ran
    obtain ⟨here, middle, stepped, rest, _, ranRest, rfl, rfl⟩ := ran
    obtain ⟨nestedFirst, nestedOthers⟩ := List.forall_mem_cons.1 nested
    have tableLater := ((stmt_roundStep first).kept (.refl session) stepped).wellNested table
    exact List.forall_mem_append.2 ⟨(stmt_turn stepped).wellNested nestedFirst table,
      ih ranRest nestedOthers tableLater⟩

/-- A round over well-formed trees ends in no error of structure. -/
theorem round_notStructural (nested : ∀ x ∈ stmts, x.WellNested) :
    Guarded (fun _ => True) (fun e : Error => e.kind ≠ .structural) (round stmts) := by
  -- By induction on the trees.
  induction stmts with
  | nil => exact .pure _
  | cons first others ih =>
    obtain ⟨nestedFirst, nestedOthers⟩ := List.forall_mem_cons.1 nested
    exact (stmt_notStructural nestedFirst).bind fun _ => (ih nestedOthers).bind fun _ => .pure _

/-- Nor do the rounds one after another. -/
theorem roundsFrom_notStructural {count left : Nat} {e : Error}
    (ran : roundsFrom count left stmts session = .error e session')
    (nested : ∀ x ∈ stmts, x.WellNested) (table : session.scopes.WellNested) :
    e.kind ≠ .structural := by
  -- By induction on the rounds that are left.
  induction left generalizing count stmts session with
  | zero =>
    cases ran
    nofun
  | succ left ih =>
    cases first : round stmts session with
    | error e' middle =>
      rw [roundsFrom_error first] at ran
      cases ran
      exact ((round_notStructural nested).fails trivial first).2
    | ok next middle =>
      rw [roundsFrom_ok first] at ran
      obtain ⟨nestedNext, tableNext⟩ := round_wellNested first nested table
      -- Giving up is no error of structure either.
      split at ran
      · cases ran
      · split at ran
        · cases ran
          nofun
        · exact ih ran nestedNext tableNext

/-- A statement that a round meets is one of its statements. -/
theorem mem_of_roundVisit {before : Session} (met : (before, s) ∈ roundVisits stmts session) :
    s ∈ stmts := by
  -- By induction on the statements of the round.
  induction stmts generalizing session with
  | nil => cases met
  | cons first others ih =>
    rcases List.mem_cons.1 met with same | later
    · cases same
      exact List.mem_cons_self ..
    · refine List.mem_cons_of_mem _ ?_
      split at later
      · exact ih later
      · cases later

/-- Whatever is met while well-formed trees are resolved is well formed. -/
theorem visit_wellNested {left : Nat} {before : Session}
    (met : (before, s) ∈ visitsFrom left stmts session) (nested : ∀ x ∈ stmts, x.WellNested)
    (table : session.scopes.WellNested) : s.WellNested := by
  -- By induction on the rounds that are left.
  induction left generalizing stmts session with
  | zero => cases met
  | succ left ih =>
    rcases List.mem_append.1 met with here | later
    · exact nested s (mem_of_roundVisit here)
    · -- What is met later is met in what this round leaves.
      split at later
      · rename_i next middle ran
        obtain ⟨nestedNext, tableNext⟩ := round_wellNested ran nested table
        split at later
        · cases later
        · exact ih later nestedNext tableNext
      · cases later

end Resolve

/-- Nesting a flat list in a session without symbols leaves well-formed trees, with the clauses of the
list in their order. So every conditional that is met while they are resolved can be lowered, those
that are spliced in with an inline function among them, and resolving ends in no error of structure. -/
theorem nested_trees_lower {cpu : Cpu} {stmts nested : List Stmt} {session : Session}
    (flat : ∀ s ∈ stmts, ∃ item, s = .item item)
    (ran : nest stmts { cpu } = .ok nested session) :
    (∀ s ∈ nested, s.WellNested) ∧ Stmt.clausesAll nested = Stmt.clausesAll stmts ∧
      (∀ before cond, (before, .conditional cond) ∈ Resolve.visits nested session →
        cond.Finished ∧ ∃ code after, Lowering.conditional cond before = .ok code after) ∧
      ∀ e last, resolve nested session = .error e last →
        e.kind ≠ .structural ∧ ∀ pos text, e ≠ .unstructured pos text ∧
          e ≠ .malformedCase pos text ∧ e ≠ .doWithoutWhile pos ∧ e ≠ .caseOutsideSwitch pos text := by
  -- All parts follow from what holds of the state in which nesting ends.
  unfold nest at ran
  cases finished : Nesting.run { session := { cpu }, queue := stmts } with
  | error => simp [finished] at ran
  | ok output state =>
    obtain ⟨visits, queue, frames, -, rfl⟩ := Nesting.run_eq_ok finished
    simp only [finished, EStateM.Result.ok.injEq] at ran
    obtain ⟨rfl, rfl⟩ := ran
    -- At the start nothing was made, and there is no inline function.
    have start : Nesting.WellNested { session := { cpu }, queue := stmts } := by
      refine ⟨⟨rfl, nofun, flat⟩, ?_⟩
      rintro func ⟨-, name, held⟩
      cases held
    obtain ⟨⟨-, trees, -⟩, table⟩ := visits.wellNested start
    -- At the end nothing is open, and nothing is left to be read.
    have told := visits.told start
    simp only [Nesting.told, frames, queue] at told
    refine ⟨trees, by simpa [Frame.clausesEach, Stmt.clausesAll] using told, ?_, ?_⟩
    · intro before cond met
      cases Resolve.visit_wellNested met trees table with
      | conditional finished inside =>
        obtain ⟨code, after, names, lowered, -⟩ := lowering_run finished.formed before
        exact ⟨finished, code, after, lowered⟩
    · intro e last failed
      have kind := Resolve.roundsFrom_notStructural failed trees table
      refine ⟨kind, fun pos text => ⟨?_, ?_, ?_, ?_⟩⟩
      all_goals
        rintro rfl
        exact kind rfl

/-- An inline function with a switch whose default ends in a loop, called from a branch without
braces. -/
def selecting : List Stmt :=
  let instruction (op : Op) : Item := .instruction (.unresolved op .none .global default)
  let clause (kind : ClauseKind) : Item := .clause ⟨kind, default⟩
  let body (items : List Item) : List Item := .scopeBegin default :: items ++ [.scopeEnd default]
  let select := body
    [clause (.caseOf (.number 1)), instruction .inx,
     clause .byDefault, clause .doBlock, instruction .iny, clause (.whileTest ⟨.near, .is, .carry⟩)]
  let branch :=
    [clause (.ifTest ⟨.near, .is, .zero⟩), .call ⟨"pick", [], .global, [], default⟩,
     clause .otherwise, instruction .dex]
  (.functionDecl ⟨"pick", .inline, false, [], default⟩ :: body (clause (.switchOn .a) :: select) ++
    .functionDecl ⟨"main", .subroutine, false, [], default⟩ :: body branch).map .item

/-- Whether a statement is a switch with a default. -/
def Stmt.selects : Stmt → Bool
  | .conditional cond => cond.form == .switchDefault
  | _ => false

/-- The switch is met where the function was called, and it is lowered. -/
theorem selecting_lowers :
    ∃ nested session, nest selecting { cpu := .nmos } = .ok nested session ∧
      (∀ s ∈ nested, s.WellNested) ∧
      ∃ before cond code after, (before, .conditional cond) ∈ Resolve.visits nested session ∧
        cond.form = .switchDefault ∧ cond.defaults = 1 ∧
        Lowering.conditional cond before = .ok code after := by
  -- That the switch is met is evaluated, and the theorem lowers it.
  have evaluated : succeedsWith
      (fun nested session => (Resolve.visits nested session).any fun visit => visit.2.selects)
      (nest selecting { cpu := .nmos }) = true := by
    decide +kernel
  have flat : ∀ s ∈ selecting, ∃ item, s = .item item := by
    intro s inside
    obtain ⟨item, -, rfl⟩ := List.mem_map.1 inside
    exact ⟨item, rfl⟩
  obtain ⟨nested, session, ran, visited⟩ := exists_of_succeedsWith evaluated
  obtain ⟨trees, -, lowers, -⟩ := nested_trees_lower flat ran
  obtain ⟨⟨before, s⟩, met, selects⟩ := List.any_eq_true.1 visited
  cases s with
  | conditional cond =>
    obtain ⟨finished, code, after, lowered⟩ := lowers before cond met
    have form : cond.form = .switchDefault := by simpa [Stmt.selects] using selects
    exact ⟨nested, session, ran, trees, before, cond, code, after, met, form,
      finished.oneDefault form, lowered⟩
  | item | function => cases selects

end CrossAsm
