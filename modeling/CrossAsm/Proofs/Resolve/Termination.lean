import Mathlib
import CrossAsm.Compile
import CrossAsm.Proofs.Resolve.Failures

/-! Why resolving ends. Every call carries the chain of inline functions it was spliced out of, and a
function is never expanded under a chain that names it; so what there is to do shrinks with every turn
that is not idle, if a call counts for all that it can still expand into. Only the calls in a subroutine
carry no chain, so no inline function may hold one. -/

namespace CrossAsm

namespace Resolve

variable {session after : Session} {s : Stmt} {stmts : List Stmt} {out next : Outcome}

/-! ### How much there is to do -/

/-- How much there is to do about a flat item, given how much a call counts under its chain. -/
def itemBurden (cost : List String → Nat) : Item → Nat
  | .call c => cost c.expansion
  | .scopeBegin _ | .scopeEnd _ | .typeDecl _ | .ret _ => 1
  | _ => 0

mutual

/-- How much there is to do about a statement. -/
def burden (cost : List String → Nat) : Stmt → Nat
  | .item item => itemBurden cost item
  | .function ⟨decl, body, _⟩ => if decl.isInline then 1 else burdenAll cost body + 1
  | .conditional ⟨_, first, others, _, _, _⟩ =>
    blockBurden cost first + blocksBurden cost others + 1

/-- How much there is to do about a block. -/
def blockBurden (cost : List String → Nat) : Block Stmt → Nat
  | ⟨_, body, _⟩ => burdenAll cost body

/-- How much there is to do about blocks. -/
def blocksBurden (cost : List String → Nat) : List (Block Stmt) → Nat
  | [] => 0
  | block :: others => blockBurden cost block + blocksBurden cost others

/-- How much there is to do about statements. -/
def burdenAll (cost : List String → Nat) : List Stmt → Nat
  | [] => 0
  | s :: others => burden cost s + burdenAll cost others

end

section Burden

variable (cost : List String → Nat)

@[simp]
theorem burdenAll_nil : burdenAll cost [] = 0 := by
  rw [burdenAll]

@[simp]
theorem burdenAll_cons (s : Stmt) (others : List Stmt) :
    burdenAll cost (s :: others) = burden cost s + burdenAll cost others := by
  rw [burdenAll]

@[simp]
theorem burden_item (item : Item) : burden cost (.item item) = itemBurden cost item := by
  rw [burden]

@[simp]
theorem blockBurden_eq (block : Block Stmt) :
    blockBurden cost block = burdenAll cost block.body := by
  rw [blockBurden]

/-- A conditional counts for its blocks, and for itself. -/
theorem burden_conditional (cond : Conditional Stmt) :
    burden cost (.conditional cond) =
      burdenAll cost cond.first.body + blocksBurden cost cond.others + 1 := by
  -- Its first block is counted apart from the others.
  rw [burden, blockBurden_eq]

/-- A subroutine counts for its statements, and for itself. -/
theorem burden_subroutine {func : Function Stmt} (subroutine : func.decl.isInline = false) :
    burden cost (.function func) = burdenAll cost func.body + 1 := by
  -- The first case of the definition is for inline functions.
  rw [burden, if_neg (by simp [subroutine])]

/-- Statements count beside each other. -/
@[simp]
theorem burdenAll_append (first second : List Stmt) :
    burdenAll cost (first ++ second) = burdenAll cost first + burdenAll cost second := by
  -- By induction on the statements in front.
  induction first with
  | nil => simp
  | cons s others ih =>
    simp only [List.cons_append, burdenAll_cons, ih]
    omega

/-- Blocks count for their statements. -/
theorem blocksBurden_eq (blocks : List (Block Stmt)) :
    blocksBurden cost blocks = burdenAll cost (blocks.flatMap Block.body) := by
  -- By induction on the blocks.
  induction blocks with
  | nil => simp [blocksBurden]
  | cons block others ih => simp [blocksBurden, ih]

/-- Labels and instructions do not count. -/
theorem burden_generated {s : Stmt} (made : s.Generated) : burden cost s = 0 := by
  -- Code that was generated declares nothing and calls nothing.
  cases made <;> simp [itemBurden]

/-- Code counts for the statements that are woven into it. -/
theorem burdenAll_woven {governed code : List Stmt} (woven : Woven governed code) :
    burdenAll cost code = burdenAll cost governed := by
  -- Whatever is not woven in is a label or an instruction.
  induction woven with
  | nil => rfl
  | generated made _ ih => rw [burdenAll_cons, burden_generated cost made, ih, Nat.zero_add]
  | governed s _ ih => rw [burdenAll_cons, burdenAll_cons, ih]

/-- What a conditional governs counts less than the conditional. -/
theorem burdenAll_governed_lt (cond : Conditional Stmt) :
    burdenAll cost cond.governed < burden cost (.conditional cond) := by
  -- The conditional counts all of its blocks and one more.
  rw [burden_conditional, blocksBurden_eq]
  unfold Conditional.governed
  split
  · -- Of the blocks behind the first only one is governed.
    have less : burdenAll cost ((cond.others.take 1).flatMap Block.body) ≤
        burdenAll cost (cond.others.flatMap Block.body) := by
      cases cond.others with
      | nil => simp
      | cons block rest => simp
    rw [burdenAll_append]
    omega
  · omega
  · omega
  · omega

end Burden

/-! ### Splicing -/

/-- The size of statements: each call counts once, whatever it may expand into. -/
def size (stmts : List Stmt) : Nat :=
  burdenAll (fun _ => 1) stmts

section Splicing

variable {cost : List String → Nat} {args : List (String × Expr)} {chain : List String}

/-- The statements of a block that is spliced in. -/
theorem spliceBlock_body (block : Block Stmt) :
    (spliceBlock args chain block).body = spliceAll args chain block.body := by
  -- Splicing leaves the clause and the mark of a block.
  rw [spliceBlock]

/-- Statements that are spliced in under a chain count at most their size times a call under that
chain, if each of them does. -/
theorem burdenAll_spliceAll_le {stmts : List Stmt} (each : ∀ s ∈ stmts,
      burden cost (splice args chain s) ≤ burden (fun _ => 1) s * cost chain) :
    burdenAll cost (spliceAll args chain stmts) ≤ size stmts * cost chain := by
  -- By induction on the statements.
  induction stmts with
  | nil => simp [spliceAll]
  | cons s others ih =>
    rw [List.forall_mem_cons] at each
    -- Both sides are sums over the statements.
    have here := each.1
    have rest := ih each.2
    rw [spliceAll, burdenAll_cons, size, burdenAll_cons, Nat.add_mul]
    exact Nat.add_le_add here rest

/-- The same for blocks. -/
theorem blocksBurden_spliceBlocks_le {blocks : List (Block Stmt)} (each : ∀ block ∈ blocks,
      ∀ s ∈ block.body, burden cost (splice args chain s) ≤ burden (fun _ => 1) s * cost chain) :
    blocksBurden cost (spliceBlocks args chain blocks) ≤
      blocksBurden (fun _ => 1) blocks * cost chain := by
  -- By induction on the blocks.
  induction blocks with
  | nil => simp [spliceBlocks, blocksBurden]
  | cons block others ih =>
    rw [List.forall_mem_cons] at each
    have here := burdenAll_spliceAll_le each.1
    have rest := ih each.2
    simp only [spliceBlocks, blocksBurden, blockBurden_eq, spliceBlock_body, Nat.add_mul]
    exact Nat.add_le_add here rest

/-- A statement without subroutines that is spliced in under a chain counts at most its size times a
call under that chain. -/
theorem burden_splice_le (positive : 0 < cost chain) {s : Stmt} (spliceable : s.Spliceable) :
    burden cost (splice args chain s) ≤ burden (fun _ => 1) s * cost chain := by
  -- By induction on the statement: what is not a call counts no more than a call does.
  induction spliceable with
  | item item =>
    rw [splice]
    cases item <;> simp [spliceItem, itemBurden] <;> omega
  | inline isInline =>
    rw [splice, burden, burden, if_pos isInline, if_pos isInline]
    omega
  | @conditional cond each ih =>
    obtain ⟨form, first, others, depth, post, ns⟩ := cond
    have all := List.forall_mem_cons.1 ih
    have firstBlock := burdenAll_spliceAll_le all.1
    have otherBlocks : blocksBurden cost (spliceBlocks args chain others) ≤
        blocksBurden (fun _ => 1) others * cost chain := blocksBurden_spliceBlocks_le all.2
    simp only [splice, burden_conditional, spliceBlock_body, Nat.add_mul, Nat.one_mul]
    simp only [size] at firstBlock
    omega

/-- The same for statements one after another. -/
theorem burdenAll_splice_le (positive : 0 < cost chain) {stmts : List Stmt}
    (spliceable : ∀ s ∈ stmts, s.Spliceable) :
    burdenAll cost (spliceAll args chain stmts) ≤ size stmts * cost chain :=
  burdenAll_spliceAll_le fun s inside => burden_splice_le positive (spliceable s inside)

end Splicing

/-! ### What a call counts -/

/-- The inline functions of a table, each by its name and its statements. -/
def inlines (table : ScopeTable) : List (String × List Stmt) :=
  table.symbols.filterMap fun entry =>
    match entry.2 with
    | .function func => if func.decl.isInline then some (func.decl.name, func.body) else none
    | _ => none

/-- An inline function of a table is one of them. -/
theorem mem_inlines {table : ScopeTable} {func : FunctionSymbol} (holds : table.HoldsInline func) :
    (func.decl.name, func.body) ∈ inlines table := by
  -- It is picked from the symbols for being inline.
  obtain ⟨isInline, key, inside⟩ := holds
  exact List.mem_filterMap.2 ⟨_, inside, by simp [isInline]⟩

/-- More than the size of any inline function: each is smaller than all of them together. -/
def expansionBound (known : List (String × List Stmt)) : Nat :=
  total (known.map fun inline => size inline.2) + 1

/-- What a call counts under a chain: a level for each inline function that may still be expanded. -/
def callCost (known : List (String × List Stmt)) (chain : List String) : Nat :=
  expansionBound known ^ ((known.map Prod.fst).filter (· ∉ chain)).length

variable {known : List (String × List Stmt)}

/-- An inline function is smaller than the bound. -/
theorem size_lt_expansionBound {inline : String × List Stmt} (inside : inline ∈ known) :
    size inline.2 < expansionBound known := by
  -- The bound is one more than all sizes together.
  have less : size inline.2 ≤ total (known.map fun inline => size inline.2) := by
    induction known with
    | nil => cases inside
    | cons first others ih =>
      rw [List.map_cons, total_cons]
      rcases List.mem_cons.1 inside with rfl | later
      · omega
      · have := ih later
        omega
  rw [expansionBound]
  omega

/-- A call counts. -/
theorem callCost_pos (chain : List String) : 0 < callCost known chain :=
  Nat.pow_pos (Nat.succ_pos _)

/-- A call counts more than the bound times a call under the chain that an expansion adds to. -/
theorem callCost_expand {name : String} {chain : List String} (inside : name ∈ known.map Prod.fst)
    (fresh : name ∉ chain) :
    expansionBound known * callCost known (chain ++ [name]) ≤ callCost known chain := by
  -- One name less is left to be expanded, so there is one level less.
  have fewer : ((known.map Prod.fst).filter (· ∉ chain ++ [name])).length <
      ((known.map Prod.fst).filter (· ∉ chain)).length :=
    length_unpassed_lt inside fresh
  rw [callCost, callCost, ← Nat.pow_succ']
  exact Nat.pow_le_pow_right (Nat.succ_pos _) fewer

/-! ### Turns and rounds -/

/-- The inline functions of a session are known, and hold no subroutine. -/
structure Inlined (known : List (String × List Stmt)) (session : Session) : Prop where
  /-- Every inline function is known. -/
  mem : ∀ func, session.scopes.HoldsInline func → (func.decl.name, func.body) ∈ known
  /-- None holds a subroutine. -/
  spliceable : session.scopes.Spliceable

/-- The inline functions of a session are known by themselves. -/
theorem inlined (spliceable : session.scopes.Spliceable) :
    Inlined (inlines session.scopes) session :=
  ⟨fun _ => mem_inlines, spliceable⟩

/-- They are known as long as none is added. -/
theorem Inlined.onward (inlined : Inlined known session) (added : session.InlinesFrom after) :
    Inlined known after := by
  -- A function may have got an entry, but its name and its statements are those of before.
  refine ⟨fun func holds => ?_, added.spliceable inlined.spliceable⟩
  obtain ⟨old, before, decl, body⟩ := added func holds
  rw [← decl, ← body]
  exact inlined.mem old before

/-- A turn that leaves less to do, or one that is idle: it leaves the session and one statement, which
would be left like this once more. -/
inductive Progress (cost : List String → Nat) (session : Session) :
    Stmt → Outcome → Session → Prop
  | less {s : Stmt} {out : Outcome} {after : Session}
    (less : burdenAll cost out.stmts < burden cost s) : Progress cost session s out after
  | idle {s kept : Stmt} {unresolved : Nat} (same : burden cost kept = burden cost s)
    (again : stmt kept session = .ok ⟨[kept], unresolved⟩ session) :
    Progress cost session s ⟨[kept], unresolved⟩ session

/-- What is expanded counts less than the call. -/
theorem burdenAll_expanded_lt (inlined : Inlined known session) {c : Call} {func : FunctionSymbol}
    (holds : session.scopes.HoldsInline func) (fresh : func.decl.name ∉ c.expansion)
    (args : List (String × Expr)) :
    burdenAll (callCost known) (spliceAll args (c.expansion ++ [func.decl.name]) func.body) <
      callCost known c.expansion := by
  -- Each statement counts at most a call under the longer chain, and that is one level down.
  have inside := inlined.mem func holds
  have chain := callCost_expand (List.mem_map_of_mem inside) fresh
  have small := size_lt_expansionBound inside
  have positive : 0 < callCost known (c.expansion ++ [func.decl.name]) := callCost_pos _
  calc burdenAll (callCost known) (spliceAll args (c.expansion ++ [func.decl.name]) func.body)
      ≤ size func.body * callCost known (c.expansion ++ [func.decl.name]) :=
        burdenAll_splice_le positive (inlined.spliceable func holds)
    _ < expansionBound known * callCost known (c.expansion ++ [func.decl.name]) :=
        Nat.mul_lt_mul_of_pos_right small positive
    _ ≤ callCost known c.expansion := chain

/-- Every turn leaves less to do or is idle. -/
theorem Turn.progress (turn : Turn session s out after) (inlined : Inlined known session) :
    Progress (callCost known) session s out after := by
  -- By the turn; an expansion is paid for by the call, which counts more the shorter its chain.
  cases turn with
  | dropped passing =>
    refine .less ?_
    -- What is dropped counted for itself.
    cases passing with
    | scopeBegin | scopeEnd | typeDecl => simp [itemBurden]
    | inline isInline => simp [burden, isInline]
  | kept refines again =>
    -- A statement that is refined counts the same.
    refine .idle ?_ again
    cases refines <;> simp [itemBurden]
  | waits again => exact .idle rfl again
  | called c line =>
    -- The jump does not count, and a call does.
    refine .less ?_
    have positive : 0 < callCost known c.expansion := callCost_pos _
    simpa [Outcome.waiting, itemBurden] using positive
  | returned =>
    -- The instruction does not count, and the return did.
    refine .less ?_
    simp [Outcome.waiting, itemBurden]
  | expanded args found isInline fresh =>
    have holds : session.scopes.HoldsInline _ :=
      ⟨isInline, _, Entries.mem_of_get? (ScopeTable.get?_of_lookup? found)⟩
    refine .less ?_
    rw [burden_item]
    exact burdenAll_expanded_lt inlined holds fresh args
  | subroutine subroutine ran =>
    -- A tree that is lowered leaves its statements, and counted one more.
    refine .less ?_
    obtain ⟨woven, -⟩ := Lowering.function_emits subroutine ran
    rw [burden_subroutine _ subroutine, Outcome.replaced, burdenAll_woven _ woven]
    omega
  | conditional ran =>
    refine .less ?_
    obtain ⟨-, woven, -⟩ := Lowering.conditional_emits ran
    rw [Outcome.replaced, burdenAll_woven _ woven]
    exact burdenAll_governed_lt _ _

/-- A round leaves less to do, or it leaves the session and a list that the next round leaves. -/
theorem round_progress (inlined : Inlined known session)
    (ran : round stmts session = .ok next after) :
    Inlined known after ∧
      (burdenAll (callCost known) next.stmts < burdenAll (callCost known) stmts ∨
        after = session ∧ round next.stmts session = .ok next session ∧
          burdenAll (callCost known) next.stmts = burdenAll (callCost known) stmts) := by
  -- One turn that leaves less is enough, for no turn leaves more.
  induction stmts generalizing session next with
  | nil =>
    -- There is nothing to do.
    rw [round, pure_eq_ok] at ran
    obtain ⟨rfl, rfl⟩ := ran
    exact ⟨inlined, .inr ⟨rfl, rfl, rfl⟩⟩
  | cons first others ih =>
    simp only [round, bind_eq_ok, pure_eq_ok] at ran
    obtain ⟨here, middle, stepped, rest, _, ranRest, rfl, rfl⟩ := ran
    have added : session.InlinesFrom middle := (stmt_roundStep first).kept (.refl session) stepped
    obtain ⟨inlined', progress⟩ := ih (inlined.onward added) ranRest
    refine ⟨inlined', ?_⟩
    simp only [burdenAll_append, burdenAll_cons]
    -- One turn that leaves less is enough; with none of them the whole round is idle.
    cases (stmt_turn stepped).progress inlined with
    | less less =>
      refine .inl ?_
      rcases progress with less' | ⟨-, -, same'⟩ <;> omega
    | idle same again =>
      simp only [burdenAll_cons, burdenAll_nil, same]
      rcases progress with less' | ⟨rfl, again', same'⟩
      · exact .inl (by omega)
      · refine .inr ⟨rfl, ?_, by omega⟩
        simp only [List.singleton_append, round, bind_eq_ok, pure_eq_ok]
        exact ⟨_, _, again, _, _, again', rfl, rfl⟩

/-! ### The loop without its limit -/

variable {middle last : Session} {flat : List Stmt} {count left : Nat}

/-- The loop gives the same result under every limit from a number of rounds on, and that result is
not that there were too many rounds. -/
def Ends (rounds count : Nat) (stmts : List Stmt) (session : Session) : Prop :=
  ∃ result, (∀ limit, rounds ≤ limit → roundsFrom count limit stmts session = result) ∧
    ∀ number last, result ≠ .error (.tooManyRounds .resolve number) last

/-- More rounds do no harm. -/
theorem Ends.mono {rounds more : Nat} (ends : Ends rounds count stmts session)
    (enough : rounds ≤ more) : Ends more count stmts session := by
  -- A bound that is large enough for more rounds is so for fewer.
  obtain ⟨result, same, decided⟩ := ends
  exact ⟨result, fun limit more => same limit (Nat.le_trans enough more), decided⟩

/-- A result that one round decides. -/
theorem Ends.ofFirst {rounds : Nat} {result : EStateM.Result Error Session (List Stmt)}
    (same : ∀ left, roundsFrom count (left + 1) stmts session = result)
    (decided : ∀ number last, result ≠ .error (.tooManyRounds .resolve number) last) :
    Ends (rounds + 1) count stmts session := by
  -- Any limit but none allows for the one round.
  refine ⟨result, fun limit enough => ?_, decided⟩
  cases limit with
  | zero => omega
  | succ left => exact same left

/-- The loop ends if it ends from the second round on, wherever it goes on to a second one. -/
theorem ends_of_next {rounds : Nat}
    (later : ∀ next middle, round stmts session = .ok next middle → next.stmts ≠ stmts →
      Ends rounds (count + 1) next.stmts middle) : Ends (rounds + 1) count stmts session := by
  -- By what the first round comes to.
  cases ran : round stmts session with
  | error e last =>
    -- An error of the round is the result, and it is not one of giving up.
    refine .ofFirst (fun left => roundsFrom_error ran) ?_
    rintro number _ ⟨⟩
    cases ((round_roundStep stmts).fails (.refl session) ran).2
  | ok next middle =>
    by_cases done : next.unresolved = 0
    · exact .ofFirst (fun left => (roundsFrom_ok ran).trans (if_pos done)) nofun
    by_cases stuck : next.stmts = stmts
    · exact .ofFirst
        (fun left => (roundsFrom_ok ran).trans ((if_neg done).trans (if_pos stuck))) nofun
    · -- The loop goes on, with one round less.
      obtain ⟨result, same, decided⟩ := later next middle ran stuck
      refine ⟨result, fun limit enough => ?_, decided⟩
      cases limit with
      | zero => omega
      | succ left =>
        rw [roundsFrom_ok ran, if_neg done, if_neg stuck]
        exact same left (by omega)

/-- The loop ends after two rounds more than there is to do. -/
theorem ends_of_burden (inlined : Inlined known session) :
    Ends (burdenAll (callCost known) stmts + 2) count stmts session := by
  -- By induction on what there is to do; an idle round is followed by one that decides.
  generalize amount : burdenAll (callCost known) stmts = burdened
  induction burdened using Nat.strongRecOn generalizing stmts session count with
  | ind burdened ih =>
    refine ends_of_next fun next middle ran changed => ?_
    obtain ⟨inlined', less | ⟨rfl, again, -⟩⟩ := round_progress inlined ran
    · have ends : Ends (burdenAll (callCost known) next.stmts + 2) (count + 1) next.stmts middle :=
        ih _ (amount ▸ less) inlined' rfl
      exact ends.mono (by omega)
    · -- The next round gives the same list once more, and so there is no round after it.
      have ends : Ends 1 (count + 1) next.stmts middle := by
        refine ends_of_next fun other after ran' changed' => ?_
        cases again.symm.trans ran'
        exact absurd rfl changed'
      exact ends.mono (by omega)

/-! ### No progress -/

/-- Code with a label in it has the name of one. -/
theorem labelNames_pos {code : List Stmt} (labelled : ∃ l, .item (.label l) ∈ code) :
    0 < (labelNames code).length := by
  -- The label is picked with its name.
  obtain ⟨l, inside⟩ := labelled
  exact List.length_pos_of_mem (List.mem_filterMap.2 ⟨_, inside, rfl⟩)

/-- The labels of the statements that stand in place of one are no fewer, and more if the session is
another one. -/
theorem Turn.labels (turn : Turn session s out after) :
    (labelNames [s]).length < (labelNames out.stmts).length ∨
      after = session ∧ (labelNames [s]).length ≤ (labelNames out.stmts).length := by
  -- Code that is emitted has a label, and no other turn touches the session.
  cases turn with
  | dropped passing =>
    refine .inr ⟨rfl, ?_⟩
    cases passing <;> exact Nat.le_refl _
  | kept refines =>
    refine .inr ⟨rfl, ?_⟩
    cases refines <;> exact Nat.le_refl _
  | waits | called | returned => exact .inr ⟨rfl, Nat.le_refl _⟩
  | expanded => exact .inr ⟨rfl, Nat.zero_le _⟩
  | subroutine subroutine ran =>
    exact .inl (labelNames_pos (Lowering.function_emits subroutine ran).2)
  | conditional ran => exact .inl (labelNames_pos (Lowering.conditional_emits ran).2.2)

/-- The same for a round. -/
theorem round_labels (ran : round stmts session = .ok next after) :
    (labelNames stmts).length < (labelNames next.stmts).length ∨
      after = session ∧ (labelNames stmts).length ≤ (labelNames next.stmts).length := by
  -- By induction on the statements of the round.
  induction stmts generalizing session next with
  | nil =>
    rw [round, pure_eq_ok] at ran
    obtain ⟨rfl, rfl⟩ := ran
    exact .inr ⟨rfl, Nat.le_refl _⟩
  | cons first others ih =>
    simp only [round, bind_eq_ok, pure_eq_ok] at ran
    obtain ⟨here, middle, stepped, rest, _, ranRest, rfl, rfl⟩ := ran
    have split : (labelNames (first :: others)).length =
        (labelNames [first]).length + (labelNames others).length := by
      simp
    simp only [labelNames_append, List.length_append, split]
    rcases (stmt_turn stepped).labels with more | ⟨rfl, enough⟩
    · rcases ih ranRest with more' | ⟨-, enough'⟩ <;> exact .inl (by omega)
    · rcases ih ranRest with more' | ⟨rfl, enough'⟩
      · exact .inl (by omega)
      · exact .inr ⟨rfl, by omega⟩

/-- A round that leaves the list leaves the session. -/
theorem round_same (ran : round stmts session = .ok next after) (same : next.stmts = stmts) :
    after = session := by
  -- In another session there would be more labels than before.
  rcases round_labels ran with more | ⟨unchanged, -⟩
  · rw [same] at more
    exact absurd more (Nat.lt_irrefl _)
  · exact unchanged

/-- The list and the session after a number of rounds, if none of them fails. -/
def afterRounds : Nat → List Stmt → Session → Option (List Stmt × Session)
  | 0, stmts, session => some (stmts, session)
  | more + 1, stmts, session =>
    match round stmts session with
    | .ok next session' => afterRounds more next.stmts session'
    | .error .. => none

/-- A list that a round leaves is left by any number of rounds. -/
theorem afterRounds_same {unresolved : Nat}
    (ran : round stmts session = .ok ⟨stmts, unresolved⟩ session) (more : Nat) :
    afterRounds more stmts session = some (stmts, session) := by
  -- By induction on the rounds.
  induction more with
  | zero => rfl
  | succ more ih =>
    rw [afterRounds, ran]
    exact ih

/-- When the loop gives up for want of progress, something is unresolved in a list that every further
round leaves, with the session. -/
theorem roundsFrom_noProgress {rounds : Nat} {stuck : List String}
    (ran : roundsFrom count left stmts session =
      .error (.noProgress .resolve rounds stuck) last) :
    count < rounds ∧ ∃ list unresolved, 0 < unresolved ∧
      round list last = .ok ⟨list, unresolved⟩ last ∧
      stuck = (list.filter isPending).map Stmt.located ∧
      ∀ more, rounds ≤ count + more + 1 → afterRounds more stmts session = some (list, last) := by
  -- By induction on the rounds that are left; the last one is the one that changes nothing.
  induction left generalizing count stmts session with
  | zero => cases ran
  | succ left ih =>
    cases first : round stmts session with
    | error e middle =>
      -- No round fails with that error itself.
      rw [roundsFrom_error first] at ran
      cases ran
      cases ((round_roundStep stmts).fails (.refl session) first).2
    | ok next middle =>
      rw [roundsFrom_ok first] at ran
      -- A round after which nothing is unresolved would end the loop.
      split at ran
      · cases ran
      · rename_i unresolved
        -- If the round changes nothing, no other one does.
        split at ran
        · rename_i same
          cases ran
          obtain rfl := round_same first same
          obtain ⟨list, count'⟩ := next
          obtain rfl : list = stmts := same
          exact ⟨Nat.lt_succ_self _, list, count', Nat.pos_of_ne_zero unresolved, first, rfl,
            fun more _ => afterRounds_same first more⟩
        · -- If it does, the rounds that are left give up.
          obtain ⟨less, list, unresolved', positive, again, named, after⟩ := ih ran
          refine ⟨by omega, list, unresolved', positive, again, named, fun more enough => ?_⟩
          cases more with
          | zero => omega
          | succ more =>
            rw [afterRounds, first]
            exact after more (by omega)

end Resolve

/-! ### Sessions -/

/-- Statements that are scanned are flat, and hold no subroutine. -/
theorem scan_spliceable {cpu : Cpu} {inputs : List Input} {stmts : List Stmt}
    (scanned : scan cpu inputs = .ok stmts) : ∀ s ∈ stmts, s.Spliceable := by
  -- Every piece of source is read to items.
  have piece : ∀ {input : Input} {here : List Stmt}, input.stmts cpu = .ok here →
      ∀ s ∈ here, s.Spliceable := by
    intro input here parsed s inside
    -- Code is parsed to items.
    cases input with
    | code chunk =>
      simp only [Input.stmts, Chunk.stmts] at parsed
      split at parsed
      · cases parsed
        obtain ⟨item, -, rfl⟩ := List.mem_map.1 inside
        exact .item item
      · cases parsed
    | fileBegin | fileEnd | directive =>
      -- The other inputs are one item.
      cases parsed
      obtain rfl := List.mem_singleton.1 inside
      exact .item _
  -- Piece by piece, as they are put together.
  induction inputs generalizing stmts with
  | nil =>
    cases scanned
    exact nofun
  | cons input others ih =>
    simp only [scan, except_bind_eq_ok, except_pure_eq_ok] at scanned
    obtain ⟨here, parsed, rest, scannedRest, rfl⟩ := scanned
    intro s inside
    exact (List.mem_append.1 inside).elim (piece parsed s) (ih scannedRest s)

/-- Compiling leaves no subroutine in an inline function, however it ends. -/
theorem compile_spliceable (inputs : List Input) :
    Guarded (fun session => session.scopes.Spliceable) (fun _ => True) (compile inputs) := by
  -- What is scanned is flat, nesting keeps the table, and so does resolving.
  refine (Session.ask_guarded fun _ _ _ => trivial).bindAnswer fun session stmts _ scanned => ?_
  have flat : ∀ s ∈ stmts, s.Spliceable := scan_spliceable (Session.ask_eq_ok.1 scanned).1
  refine (nest_spliceable flat).bind fun nested => (resolve_spliceable nested).bind fun _ => ?_
  exact Session.ask_guarded fun _ _ _ => trivial

/-- A session as compiling makes it: a new one, or what a compilation or a stage of one leaves, whether
it succeeds or not. -/
inductive Session.Staged : Session → Prop
  | new (cpu : Cpu) : Staged { cpu }
  | compiled {session after : Session} (staged : Staged session) {inputs : List Input}
    (leaves : Leaves (compile inputs) session after) : Staged after
  | nested {session after : Session} (staged : Staged session) {inputs : List Input}
    {stmts : List Stmt} (scanned : scan session.cpu inputs = .ok stmts)
    (leaves : Leaves (nest stmts) session after) : Staged after
  | resolved {session after : Session} (staged : Staged session) {stmts : List Stmt}
    (leaves : Leaves (resolve stmts) session after) : Staged after

/-- No inline function of such a session holds a subroutine. -/
theorem Session.Staged.spliceable {session : Session} (staged : session.Staged) :
    session.scopes.Spliceable := by
  -- By induction on how the session was made.
  induction staged with
  | new =>
    -- There is nothing in a new table.
    rintro func ⟨-, key, inside⟩
    cases inside
  | compiled _ leaves ih => exact (compile_spliceable _).left ih leaves
  | nested _ scanned leaves ih => exact (nest_spliceable (scan_spliceable scanned)).left ih leaves
  | resolved _ leaves ih => exact (resolve_spliceable _).left ih leaves

/-- Resolving ends by itself. No inline function of a session that compiling makes holds a subroutine;
and if none does, then however they call each other there is a number of rounds from which on the
limit makes no difference: the loop ends with a result or an error of its own. And whenever resolving
gives up for want of progress, something is unresolved in a list that the next round leaves as it is,
with the session, and so does every round after it. -/
theorem resolve_ends (stmts : List Stmt) (session : Session) :
    (session.Staged → session.scopes.Spliceable) ∧
    (session.scopes.Spliceable → ∃ rounds result,
      (∀ limit, rounds ≤ limit → Resolve.roundsFrom 0 limit stmts session = result) ∧
      ∀ number last, result ≠ .error (.tooManyRounds .resolve number) last) ∧
    ∀ rounds stuck last,
      resolve stmts session = .error (.noProgress .resolve rounds stuck) last →
      ∃ list unresolved, 0 < unresolved ∧
        Resolve.round list last = .ok ⟨list, unresolved⟩ last ∧
        stuck = (list.filter Resolve.isPending).map Stmt.located ∧
        ∀ more, rounds ≤ more + 1 →
          Resolve.afterRounds more stmts session = some (list, last) := by
  -- The first part is about staging, the second about the burden, the third about giving up.
  refine ⟨Session.Staged.spliceable,
    fun spliceable => ⟨_, Resolve.ends_of_burden (Resolve.inlined spliceable)⟩, ?_⟩
  intro rounds stuck last ran
  obtain ⟨-, list, unresolved, positive, again, named, after⟩ := Resolve.roundsFrom_noProgress ran
  exact ⟨list, unresolved, positive, again, named, fun more enough => after more (by omega)⟩

/-- A call without arguments. -/
def bareCall (name : String) : Stmt :=
  .item (.call ⟨name, [], .global, [], default⟩)

/-- An inline function without parameters, under its name. -/
def bareInline (name : String) (body : List Stmt) : (Namespace × String) × Symbol :=
  ((.global, name), .function ⟨⟨name, .inline, false, [], default⟩, body, none⟩)

/-- An inline function that calls another one, which reads a name that nothing defines. -/
def unknownInside : Session where
  cpu := .nmos
  scopes :=
    { symbols :=
        [bareInline "outer" [bareCall "inner"],
         bareInline "inner"
          [.item (.instruction (.unresolved .lda (.address (.name "x")) .global default))]] }

/-- The calls are expanded in two rounds, and the third one finds that nothing more can be done. -/
theorem unknownInside_ends :
    ({ cpu := .nmos } : Session).scopes.Spliceable ∧ unknownInside.scopes.Spliceable ∧
      (∃ rounds result, (∀ limit, rounds ≤ limit →
          Resolve.roundsFrom 0 limit [bareCall "outer"] unknownInside = result) ∧
        ∀ number last, result ≠ .error (.tooManyRounds .resolve number) last) ∧
      ∃ stuck last, resolve [bareCall "outer"] unknownInside =
          .error (.noProgress .resolve 3 stuck) last ∧
        ∃ list unresolved, 0 < unresolved ∧
          Resolve.round list last = .ok ⟨list, unresolved⟩ last ∧
          ∀ more, 2 ≤ more →
            Resolve.afterRounds more [bareCall "outer"] unknownInside = some (list, last) := by
  -- Both functions hold a call only, and the rounds are evaluated.
  obtain ⟨made, -, -⟩ := resolve_ends [] { cpu := .nmos }
  obtain ⟨-, ends, givesUp⟩ := resolve_ends [bareCall "outer"] unknownInside
  -- The body of either function is one call.
  have spliceable : unknownInside.scopes.Spliceable := by
    rintro func ⟨-, key, inside⟩ s mem
    simp only [unknownInside, bareInline, List.mem_cons, Prod.mk.injEq, Symbol.function.injEq,
      List.not_mem_nil, or_false] at inside
    rcases inside with ⟨-, rfl⟩ | ⟨-, rfl⟩
    · obtain rfl := List.mem_singleton.1 mem
      exact .item _
    · obtain rfl := List.mem_singleton.1 mem
      exact .item _
  -- The rounds are run, and give up in the third.
  have evaluated : (match resolve [bareCall "outer"] unknownInside with
      | .error (.noProgress .resolve rounds _) _ => rounds == 3
      | _ => false) = true := by
    decide +kernel
  refine ⟨made (.new .nmos), spliceable, ends spliceable, ?_⟩
  split at evaluated
  · rename_i rounds stuck last ran
    obtain rfl : rounds = 3 := by simpa using evaluated
    obtain ⟨list, unresolved, positive, again, -, after⟩ := givesUp 3 stuck last ran
    exact ⟨stuck, last, ran, list, unresolved, positive, again,
      fun more enough => after more (by omega)⟩
  · cases evaluated

/-! ### A subroutine in an inline function

Every call puts such a subroutine out as it is, and the calls in it carry no chain. No text is read so,
since a function is refused where another one is open; but a list may hold one that was nested before. -/

/-- A subroutine that calls an inline function. -/
def caller : Function Stmt :=
  ⟨⟨"sub", .subroutine, false, [], default⟩, [bareCall "around"], .global⟩

/-- An inline function around it, and a call. -/
def subroutineInside : List Stmt :=
  [.item (.functionDecl ⟨"around", .inline, false, [], default⟩), .item (.scopeBegin default),
   .function caller, .item (.scopeEnd default), bareCall "around"]

/-- What nesting leaves of it. -/
def subroutineNested : List Stmt :=
  [.function ⟨⟨"around", .inline, false, [], default⟩, [.function caller], .child .global "around"⟩,
   bareCall "around"]

/-- The session that nesting leaves. -/
def subroutineNestedIn : Session where
  cpu := .nmos
  scopes := { symbols := [bareInline "around" [.function caller]] }

namespace Resolve

/-- A round over statements, and then over others behind them. -/
theorem round_append {first second : List Stmt} {one two : Outcome} {middle : Session}
    (early : round first session = .ok one middle) (late : round second middle = .ok two after) :
    round (first ++ second) session =
      .ok ⟨one.stmts ++ two.stmts, one.unresolved + two.unresolved⟩ after := by
  -- Statement by statement, up to where the others begin.
  induction first generalizing session one with
  | nil =>
    rw [round, pure_eq_ok] at early
    obtain ⟨rfl, rfl⟩ := early
    simpa using late
  | cons s others ih =>
    simp only [round, bind_eq_ok, pure_eq_ok] at early
    obtain ⟨here, between, stepped, rest, _, ran, rfl, rfl⟩ := early
    simp only [List.cons_append, round, bind_eq_ok, pure_eq_ok]
    exact ⟨here, between, stepped, _, _, ih ran, by simp [Nat.add_assoc], rfl⟩

/-- A round leaves copies of a statement with nothing to resolve. -/
theorem round_replicate (settled : stmt s session = .ok ⟨[s], 0⟩ session) (number : Nat) :
    round (List.replicate number s) session = .ok ⟨List.replicate number s, 0⟩ session := by
  -- By induction on the number of copies.
  induction number with
  | zero => rfl
  | succ number ih =>
    simp only [List.replicate_succ, round, bind_eq_ok, pure_eq_ok]
    exact ⟨_, _, settled, _, _, ih, rfl, rfl⟩

/-- The label of the subroutine. -/
def entryLabel : Stmt :=
  .item (.label ⟨"sub", default⟩)

/-- A return, once its mode is chosen. -/
def bareReturn : Stmt :=
  .item (.instruction ⟨.rts, .none, some .implied, .global, default⟩)

/-- Statements behind as many labels of the subroutine as there are returns behind them. -/
def enclosed (number : Nat) (middle : List Stmt) : List Stmt :=
  List.replicate number entryLabel ++ (middle ++ List.replicate number bareReturn)

/-- One more of each stands around them. -/
theorem enclosed_succ (number : Nat) (middle : List Stmt) :
    enclosed number ([entryLabel] ++ middle ++ [bareReturn]) = enclosed (number + 1) middle := by
  -- The labels stand in front and the returns behind, so that both lists grow at the inner end.
  rw [enclosed, enclosed, List.replicate_succ', List.replicate_succ (a := bareReturn)]
  simp

/-- A round works on what stands between the labels and the returns. -/
theorem round_enclosed {middle : List Stmt} {out : Outcome}
    (ran : round middle subroutineNestedIn = .ok out subroutineNestedIn) (number : Nat) :
    round (enclosed number middle) subroutineNestedIn =
      .ok ⟨enclosed number out.stmts, out.unresolved⟩ subroutineNestedIn := by
  -- The labels and the returns around it are settled.
  have labels : round (List.replicate number entryLabel) subroutineNestedIn =
      .ok ⟨List.replicate number entryLabel, 0⟩ subroutineNestedIn := round_replicate rfl number
  have returns : round (List.replicate number bareReturn) subroutineNestedIn =
      .ok ⟨List.replicate number bareReturn, 0⟩ subroutineNestedIn := round_replicate rfl number
  simpa [enclosed] using round_append labels (round_append ran returns)

/-- The subroutine once it is lowered. -/
def opened : List Stmt :=
  [entryLabel, bareCall "around", .item (.instruction (.unresolved .rts .none .global default))]

/-- One round lowers the subroutine. -/
theorem round_lowers (number : Nat) :
    round (enclosed number [.function caller]) subroutineNestedIn =
      .ok ⟨enclosed number opened, 3⟩ subroutineNestedIn := by
  -- What stands around is passed over, and the subroutine is lowered where it stands.
  have lowers : round [.function caller] subroutineNestedIn =
      .ok ⟨opened, 3⟩ subroutineNestedIn := rfl
  exact round_enclosed lowers number

/-- The next one expands the call, which leaves it between one label and one return more. -/
theorem round_expands (number : Nat) :
    round (enclosed number opened) subroutineNestedIn =
      .ok ⟨enclosed (number + 1) [.function caller], 1⟩ subroutineNestedIn := by
  -- What stands around is passed over, and the body of the function has the subroutine in it again.
  have expands : round opened subroutineNestedIn =
      .ok ⟨[entryLabel] ++ [.function caller] ++ [bareReturn], 1⟩ subroutineNestedIn := rfl
  rw [round_enclosed expands number, enclosed_succ]

/-- No number of rounds is enough. -/
theorem enclosed_endless (limit count number : Nat) :
    roundsFrom count limit (enclosed number [.function caller]) subroutineNestedIn =
        .error (.tooManyRounds .resolve (count + limit)) subroutineNestedIn ∧
      roundsFrom count limit (enclosed number opened) subroutineNestedIn =
        .error (.tooManyRounds .resolve (count + limit)) subroutineNestedIn := by
  -- By induction on the limit; each of the two lists becomes the other one, and is longer then.
  induction limit generalizing count number with
  | zero => exact ⟨rfl, rfl⟩
  | succ limit ih =>
    have later : count + 1 + limit = count + (limit + 1) := by omega
    constructor
    · have longer : enclosed number opened ≠ enclosed number [.function caller] := by
        simp [enclosed, opened, entryLabel]
      rw [roundsFrom_ok (round_lowers number), if_neg (Nat.succ_ne_zero 2), if_neg longer, ← later]
      exact (ih (count + 1) number).2
    · have other : enclosed (number + 1) [.function caller] ≠ enclosed number opened := by
        rw [← enclosed_succ]
        simp [enclosed, opened, bareCall]
      rw [roundsFrom_ok (round_expands number), if_neg Nat.one_ne_zero, if_neg other, ← later]
      exact (ih (count + 1) (number + 1)).1

end Resolve

/-- Nesting accepts the list, and resolving what it leaves never ends by itself: under every limit there
are too many rounds. -/
theorem subroutineInside_endless :
    nest subroutineInside { cpu := .nmos } = .ok subroutineNested subroutineNestedIn ∧
      ¬ subroutineNestedIn.scopes.Spliceable ∧
      ∀ limit, Resolve.roundsFrom 0 limit subroutineNested subroutineNestedIn =
        .error (.tooManyRounds .resolve limit) subroutineNestedIn := by
  -- Every round turns the subroutine into a call and expands that to the subroutine.
  refine ⟨by cbv, fun spliceable => ?_, fun limit => ?_⟩
  · have holds : subroutineNestedIn.scopes.HoldsInline
        ⟨⟨"around", .inline, false, [], default⟩, [.function caller], none⟩ :=
      ⟨rfl, _, List.mem_singleton.2 rfl⟩
    cases spliceable _ holds _ (List.mem_singleton.2 rfl) with
    | inline isInline => cases isInline
  · cases limit with
    | zero => rfl
    | succ limit =>
      -- The first round expands the call, and leaves the subroutine alone.
      have first : Resolve.round subroutineNested subroutineNestedIn =
          .ok ⟨Resolve.enclosed 0 [.function caller], 1⟩ subroutineNestedIn := rfl
      have other : Resolve.enclosed 0 [.function caller] ≠ subroutineNested :=
        fun same => absurd (congrArg List.length same) (by decide)
      rw [Resolve.roundsFrom_ok first, if_neg Nat.one_ne_zero, if_neg other, Nat.add_comm limit]
      exact (Resolve.enclosed_endless limit 1 0).1

end CrossAsm
