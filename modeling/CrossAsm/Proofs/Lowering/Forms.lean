import CrossAsm.Proofs.Lowering.Runs

/-! The code of each form of conditional does what the conditional does by its structure, wherever
the code stands in a list without double labels. -/

namespace CrossAsm

/-- A loop whose test always holds has no end. -/
theorem Effect.Loop.endless {σ : Type} {round : Effect σ} {s t : σ}
    (looped : Effect.Loop (fun _ => true) round s t) : False := by
  -- Leaving the loop takes a test that fails, and every other round goes on.
  induction looped with
  | leave fails => cases fails
  | again _ _ _ ih => exact ih

namespace Machine

variable {σ : Type} {m : Machine σ} {program : List Stmt}

/-- The statements of a block have their effects one after another. -/
@[simp]
theorem sequence_effectBlock (block : Block Stmt) :
    Effect.sequence (m.effectBlock block).body = m.effectAll block.body := by
  -- A block is a clause and a body.
  cases block
  rfl

/-- A block with effects is governed by the same clause. -/
@[simp]
theorem effectBlock_clause (block : Block Stmt) : (m.effectBlock block).clause = block.clause := by
  -- A block is a clause and a body.
  cases block
  rfl

section Effects

variable {c : Conditional Stmt} {test : Test} {s t : σ}

/-- An `if` without an `else` runs its body if its test holds. -/
theorem effect_ifThen (form : c.form = .ifThen) (tested : c.first.clause.test? = some test) :
    m.effect (.conditional c) s t ↔
      if m.holds test s then m.effectAll c.first.body s t else s = t := by
  -- The form is put in for the fields of the conditional.
  obtain ⟨_, first, others, depth, post, ns⟩ := c
  cases form
  simp [effect, conditional, tested]

/-- An `if` with an `else` runs one of its bodies. -/
theorem effect_ifElse {other : Block Stmt} (form : c.form = .ifElse)
    (tested : c.first.clause.test? = some test) (only : c.others = [other]) :
    m.effect (.conditional c) s t ↔
      if m.holds test s then m.effectAll c.first.body s t else m.effectAll other.body s t := by
  -- The effect of the form is read off its definition, with the one other block filled in.
  obtain ⟨_, first, others, depth, post, ns⟩ := c
  cases form
  cases only
  simp [effect, conditional, tested, effectBlocks]

/-- A loop that tests before its body. -/
theorem effect_whileLoop (form : c.form = .whileLoop)
    (tested : c.first.clause.test? = some test) :
    m.effect (.conditional c) s t ↔
      Effect.Loop (m.holds test) (m.effectAll c.first.body) s t := by
  -- The form is put in for the fields of the conditional.
  obtain ⟨_, first, others, depth, post, ns⟩ := c
  cases form
  simp [effect, conditional, tested]

/-- A loop that tests behind its body runs it once before it goes on as one that tests before. -/
theorem effect_doWhile (form : c.form = .doWhile) (tested : c.post = some test) :
    m.effect (.conditional c) s t ↔ ∃ mid, m.effectAll c.first.body s mid ∧
      Effect.Loop (m.holds test) (m.effectAll c.first.body) mid t := by
  -- The effect of the form is read off its definition, with the test behind filled in.
  obtain ⟨_, first, others, depth, post, ns⟩ := c
  cases form
  cases tested
  simp [effect, conditional]

/-- A loop without a test has no end. -/
theorem effect_forever (form : c.form = .forever) : ¬m.effect (.conditional c) s t := by
  -- What its effect would be is a loop, which never ends.
  obtain ⟨_, first, others, depth, post, ns⟩ := c
  cases form
  simp [effect, conditional]

/-- A switch runs the case it selects. -/
theorem effect_switch {register : Register} (form : c.form = .switch ∨ c.form = .switchDefault)
    (selected : c.first.clause.kind = .switchOn register) :
    m.effect (.conditional c) s t ↔ m.select c.site register (m.effectBlocks c.others) s t := by
  -- Both forms of a switch have the same effect.
  obtain ⟨_, first, others, depth, post, ns⟩ := c
  replace selected : first.clause.kind = .switchOn register := selected
  rcases form with form | form <;> cases form <;>
    simp [effect, conditional, selected, Conditional.site, Conditional.pos]

end Effects

/-- The opposite of a test holds where the test fails. -/
theorem holds_not (test : Test) (s : σ) : m.holds test.not s = !m.holds test s := by
  -- The opposite asks for the other state of the same flag.
  obtain ⟨distance, polarity, condition⟩ := test
  cases polarity <;> simp [holds, Test.not, Polarity.flip]

/-- A test leads on if it holds, and to its target if not. -/
theorem Reaches.leave {site : Site} {test : Test} {target past : String} {start goal : Nat}
    (distinct : (labelNames program).Nodup)
    (code : CodeAt program start (site.leaveCode test target past))
    (found : labelIndex program target = some goal) (s : σ) :
    m.Reaches program 1 start s
      (if m.holds test s then start + (site.leaveCode test target past).length else goal)
      (· = s) := by
  -- By the distance of the test: a near one branches, a far one branches over a jump.
  rw [m.holds_eq]
  unfold Site.leaveCode at code ⊢
  cases distance : test.distance with
  | near =>
    -- The branch is the opposite one, so it is not taken where the test holds.
    simp only [distance, codeAt_cons, List.length_singleton] at code ⊢
    have stepped := m.step_branch code.1 found s
    cases state : test.flag.2 <;> cases shown : m.flag test.flag.1 s <;>
      exact .last (by simpa [state, shown] using stepped)
  | far =>
    simp only [distance, codeAt_cons, List.length_cons, List.length_nil] at code ⊢
    obtain ⟨branch, jump, label, -⟩ := code
    have stepped := m.step_branch branch (labelIndex_eq distinct label (site.label_name past)) s
    by_cases holds : m.flag test.flag.1 s = test.flag.2
    · -- The branch skips the jump and comes to the label behind it.
      rw [if_pos holds] at stepped
      rw [if_pos (by simpa using holds)]
      exact .step stepped (.last (m.step_label label s))
    · rw [if_neg holds] at stepped
      rw [if_neg (by simpa using holds)]
      exact .step stepped (.last (m.step_jump jump found s))

section Forms

variable {c : Conditional Stmt} {start : Nat} {s : σ} {test : Test}

/-- The code of an `if` without an `else`. -/
theorem reaches_ifThen {after past : String} (distinct : (labelNames program).Nodup)
    (structured : ∀ stmt ∈ c.first.body, stmt.Structured) (form : c.form = .ifThen)
    (tested : c.first.clause.test? = some test)
    (placed : CodeAt program start
      (c.site.leaveCode test after past ++ c.first.body ++ [c.site.label after])) :
    m.Reaches program 1 start s
      (start + (c.site.leaveCode test after past ++ c.first.body ++ [c.site.label after]).length)
      (m.effect (.conditional c) s) := by
  -- The test leads into the body or to the label behind it, and both ways end there.
  simp only [codeAt_append, codeAt_cons, codeAt_nil, and_true, List.length_append,
    List.length_singleton, ← Nat.add_assoc] at placed ⊢
  obtain ⟨⟨leave, body⟩, label⟩ := placed
  have found := labelIndex_eq distinct label (c.site.label_name after)
  have tests := Reaches.leave (m := m) distinct leave found s
  have last := fun mid => Reaches.last (m.step_label label mid)
  cases holds : m.holds test s with
  | true =>
    rw [if_pos holds] at tests
    have acts := (Reaches.body (m := m) structured body s).andThen fun mid _ => last mid
    refine ((tests.goesOn acts).weaken (by omega)).congr fun t => ?_
    simp [effect_ifThen form tested, holds]
  | false =>
    rw [if_neg (by simp [holds])] at tests
    refine ((tests.goesOn (last s)).weaken (by omega)).congr fun t => ?_
    simp [effect_ifThen form tested, holds, eq_comm]

/-- The code of an `if` with an `else`. -/
theorem reaches_ifElse {other : Block Stmt} {otherwise after past : String}
    (distinct : (labelNames program).Nodup)
    (structured : ∀ stmt ∈ c.first.body, stmt.Structured)
    (structuredOther : ∀ stmt ∈ other.body, stmt.Structured) (form : c.form = .ifElse)
    (tested : c.first.clause.test? = some test) (only : c.others = [other])
    (placed : CodeAt program start
      (c.site.leaveCode test otherwise past ++ c.first.body ++
        [c.site.jump after, c.site.label otherwise] ++ other.body ++ [c.site.label after])) :
    m.Reaches program 1 start s
      (start + (c.site.leaveCode test otherwise past ++ c.first.body ++
        [c.site.jump after, c.site.label otherwise] ++ other.body ++ [c.site.label after]).length)
      (m.effect (.conditional c) s) := by
  -- The test leads into the first body or to the label in front of the other one.
  simp only [codeAt_append, codeAt_cons, codeAt_nil, and_true, List.length_append,
    List.length_cons, List.length_nil, ← Nat.add_assoc, Nat.add_zero] at placed ⊢
  obtain ⟨⟨⟨⟨leave, body⟩, jump, elseLabel⟩, elseBody⟩, label⟩ := placed
  have foundElse := labelIndex_eq distinct elseLabel (c.site.label_name otherwise)
  have found := labelIndex_eq distinct label (c.site.label_name after)
  have tests := Reaches.leave (m := m) distinct leave foundElse s
  have last := fun mid => Reaches.last (m.step_label label mid)
  cases holds : m.holds test s with
  | true =>
    -- The body ends in a jump past the other one.
    rw [if_pos holds] at tests
    have acts := (Reaches.body (m := m) structured body s).andThen fun mid _ =>
      .step (m.step_jump jump found mid) (last mid)
    refine ((tests.goesOn acts).weaken (by omega)).congr fun t => ?_
    simp [effect_ifElse form tested only, holds]
  | false =>
    rw [if_neg (by simp [holds])] at tests
    have acts := (Reaches.body (m := m) structuredOther elseBody s).andThen fun mid _ => last mid
    refine ((tests.goesOn (.step (m.step_label elseLabel s) acts)).weaken (by omega)).congr
      fun t => ?_
    simp [effect_ifElse form tested only, holds]

/-- The code of a loop that tests before its body. -/
theorem reaches_whileLoop {head exit past : String} (distinct : (labelNames program).Nodup)
    (structured : ∀ stmt ∈ c.first.body, stmt.Structured) (form : c.form = .whileLoop)
    (tested : c.first.clause.test? = some test)
    (placed : CodeAt program start
      (c.site.label head :: c.site.leaveCode test exit past ++ c.first.body ++
        [c.site.jump head, c.site.label exit])) :
    m.Reaches program 1 start s
      (start + (c.site.label head :: c.site.leaveCode test exit past ++ c.first.body ++
        [c.site.jump head, c.site.label exit]).length)
      (m.effect (.conditional c) s) := by
  -- The head comes before the test, so a round leads from the head back to it.
  have stop : start + (c.site.label head :: c.site.leaveCode test exit past ++ c.first.body ++
      [c.site.jump head, c.site.label exit]).length =
      start + 1 + (c.site.leaveCode test exit past).length + c.first.body.length + 1 + 1 := by
    simp only [List.length_append, List.length_cons, List.length_nil]
    omega
  rw [stop]
  simp only [List.cons_append, codeAt_append, codeAt_cons, codeAt_nil, and_true,
    List.length_append, ← Nat.add_assoc] at placed
  -- The parts of the code, and the two labels in the program.
  obtain ⟨label, ⟨leave, body⟩, jump, exitLabel⟩ := placed
  have found := labelIndex_eq distinct label (c.site.label_name head)
  have foundExit := labelIndex_eq distinct exitLabel (c.site.label_name exit)
  have tests := Reaches.leave (m := m) distinct leave foundExit
  refine (Reaches.loop (m.holds test) (m.effectAll c.first.body)
    (fun s holds => ?again) (fun s fails => ?exit)).congr fun t =>
      (effect_whileLoop form tested).symm
  -- If the test holds, the body is run and jumps back to the head.
  case again =>
    have here := tests s
    rw [if_pos holds] at here
    have acts := (Reaches.body (m := m) structured body s).andThen fun mid _ =>
      .last (m.step_jump jump found mid)
    refine (Reaches.step (m.step_label label s) (here.goesOn acts)).congr fun t => ?_
    simp
  -- If it fails, the label behind the loop is next.
  case exit =>
    have here := tests s
    rw [if_neg (by simp [fails])] at here
    exact .step (m.step_label label s) (here.goesOn (.last (m.step_label exitLabel s)))

/-- The code of a loop that tests behind its body. -/
theorem reaches_doWhile {head past : String} (distinct : (labelNames program).Nodup)
    (structured : ∀ stmt ∈ c.first.body, stmt.Structured) (form : c.form = .doWhile)
    (tested : c.post = some test)
    (placed : CodeAt program start
      (c.site.label head :: c.first.body ++ c.site.leaveCode test.not head past)) :
    m.Reaches program 1 start s
      (start + (c.site.label head :: c.first.body ++
        c.site.leaveCode test.not head past).length)
      (m.effect (.conditional c) s) := by
  -- The code is the label of the head, the body, and the opposite test back to the head.
  have stop : start + (c.site.label head :: c.first.body ++
      c.site.leaveCode test.not head past).length =
      start + 1 + c.first.body.length + (c.site.leaveCode test.not head past).length := by
    simp only [List.length_append, List.length_cons]
    omega
  rw [stop]
  simp only [List.cons_append, codeAt_append, codeAt_cons] at placed
  obtain ⟨label, body, leave⟩ := placed
  have found := labelIndex_eq distinct label (c.site.label_name head)
  have tests := Reaches.leave (m := m) distinct leave found
  have round := fun s => Reaches.step (m.step_label label s) (Reaches.body (m := m) structured body s)
  -- The loop is entered at its test, behind the first round of its body.
  refine (((round s).andThen fun mid _ => Reaches.loop (m.holds test)
    (m.effectAll c.first.body) (fun s holds => ?again) (fun s fails => ?exit)).weaken
      (by omega)).congr fun t => (effect_doWhile form tested).symm
  case again =>
    have here := tests s
    rw [if_neg (by simp [holds_not, holds])] at here
    exact (here.goesOn (round s)).weaken (by omega)
  case exit =>
    have here := tests s
    rwa [if_pos (by simp [holds_not, fails])] at here

/-- The code of a loop without a test. -/
theorem reaches_forever {head : String} (distinct : (labelNames program).Nodup)
    (structured : ∀ stmt ∈ c.first.body, stmt.Structured) (form : c.form = .forever)
    (placed : CodeAt program start (c.site.label head :: c.first.body ++ [c.site.jump head])) :
    m.Reaches program 1 start s
      (start + (c.site.label head :: c.first.body ++ [c.site.jump head]).length)
      (m.effect (.conditional c) s) := by
  -- The code is a loop whose test always holds, so neither side has an end.
  simp only [List.cons_append, codeAt_append, codeAt_cons, codeAt_nil, and_true] at placed
  obtain ⟨label, body, jump⟩ := placed
  have found := labelIndex_eq distinct label (c.site.label_name head)
  refine (Reaches.loop (fun _ => true) (m.effectAll c.first.body)
    (fun s _ => ?again) (fun _ fails => by cases fails)).congr fun t => ?none
  case again =>
    have acts := (Reaches.body (m := m) structured body s).andThen fun mid _ =>
      Reaches.last (m.step_jump jump found mid)
    refine (Reaches.step (m.step_label label s) acts).congr fun t => ?_
    simp
  case none =>
    exact ⟨fun looped => looped.endless.elim, fun acts => (effect_forever form acts).elim⟩

section Cases

variable {site : Site} {register : Register} {done : String} {block : Block Stmt}
  {others : List (Block Stmt)} {stop : Nat}

/-- The code of one case of a switch: a body that ends in a jump past the other cases, or these with
what the compare left. -/
theorem reaches_caseOf {value : Expr} {next : String} (distinct : (labelNames program).Nodup)
    (structured : ∀ stmt ∈ block.body, stmt.Structured)
    (kind : block.clause.kind = .caseOf value)
    (placed : CodeAt program start
      ([.item (.instruction (site.compare register value)), site.goto (Flag.z.branch false) next] ++
        block.body ++ [site.jump done, site.label next]))
    (label : program[stop]? = some (site.label done))
    (rest : ∀ s, m.Reaches program 1 (start + 1 + 1 + block.body.length + 1 + 1) s (stop + 1)
      (m.select site register (m.effectBlocks others) s)) :
    m.Reaches program 1 start s (stop + 1)
      (m.select site register (m.effectBlocks (block :: others)) s) := by
  -- The compare is run, and then the branch decides between body and next case.
  simp only [List.cons_append, List.nil_append, codeAt_append, codeAt_cons, codeAt_nil, and_true]
    at placed
  obtain ⟨compare, branch, body, jump, nextLabel⟩ := placed
  have found := labelIndex_eq distinct label (site.label_name done)
  have branches := m.step_branch branch (labelIndex_eq distinct nextLabel (site.label_name next))
    (m.exec (site.compare register value) s)
  rw [m.compare_zero] at branches
  -- Behind the compare there is the branch, from which the rest is shown.
  suffices compared : m.Reaches program 1 (start + 1) (m.exec (site.compare register value) s)
      (stop + 1) (m.select site register (m.effectBlocks (block :: others)) s) from
    .step (m.step_next compare register.compare_flow s) compared
  by_cases equal : m.register register s = lowByte (m.value value).toInt
  · -- The register is equal: the body runs and jumps to the end.
    rw [if_neg (by simp [equal])] at branches
    have acts := (Reaches.body structured body
      (m.exec (site.compare register value) s)).andThen fun mid _ =>
        Reaches.step (m.step_jump jump found mid) (.last (m.step_label label mid))
    refine (Reaches.step branches acts).congr fun t => ?_
    simp [effectBlocks, select, kind, equal]
  · -- It is not: the other cases go on with what the compare left.
    rw [if_pos (by simp [equal])] at branches
    refine (Reaches.step branches (.step (m.step_label nextLabel _) (rest _))).congr fun t => ?_
    simp [effectBlocks, select, kind, equal]

/-- The code of the default of a switch, which jumps past the blocks behind it if there are any. -/
theorem reaches_byDefault (distinct : (labelNames program).Nodup)
    (structured : ∀ stmt ∈ block.body, stmt.Structured) (kind : block.clause.kind = .byDefault)
    (placed : CodeAt program start
      (block.body ++ if others.isEmpty then [] else [site.jump done]))
    (label : program[stop]? = some (site.label done))
    (behind : others = [] → stop = start + block.body.length) :
    m.Reaches program 1 start s (stop + 1)
      (m.select site register (m.effectBlocks (block :: others)) s) := by
  -- The body is run whatever the register has.
  obtain ⟨body, jump⟩ := codeAt_append.1 placed
  have acts := Reaches.body (m := m) structured body s
  have last := fun mid => Reaches.last (m.step_label label mid)
  have selected : ∀ t, m.effectAll block.body s t ↔
      m.select site register (m.effectBlocks (block :: others)) s t := by
    simp [effectBlocks, select, kind]
  refine Reaches.congr selected ?_
  cases others with
  | nil =>
    -- The default is the last block, so the end stands right behind it.
    rw [← behind rfl] at acts
    refine (acts.andThen fun mid _ => last mid).congr fun t => ?_
    simp
  | cons other others =>
    simp only [List.isEmpty_cons, Bool.false_eq_true, if_false, codeAt_cons] at jump
    have found := labelIndex_eq distinct label (site.label_name done)
    refine (acts.andThen fun mid _ =>
      Reaches.step (m.step_jump jump.1 found mid) (last mid)).congr fun t => ?_
    simp

/-- The code of the cases of a switch, with the label of its end behind it. -/
theorem reaches_cases {nexts : List String} {code : List Stmt}
    (distinct : (labelNames program).Nodup)
    (structured : ∀ block ∈ others, ∀ stmt ∈ block.body, stmt.Structured)
    (cases : site.CasesCode register done others nexts code)
    (placed : CodeAt program start code)
    (label : program[start + code.length]? = some (site.label done)) :
    m.Reaches program 1 start s (start + code.length + 1)
      (m.select site register (m.effectBlocks others) s) := by
  -- The cases are tried in order, each with the state that the compares before it have left.
  induction cases generalizing start s with
  | nil =>
    -- No case is left.
    refine (Reaches.last (m.step_label label s)).congr fun t => ?_
    simp [effectBlocks, select, eq_comm]
  | @caseOf block others value next nexts code kind rest ih =>
    have here := structured block (List.mem_cons_self ..)
    -- The other cases are reached behind the code of the first one.
    have later := fun other within => structured other (List.mem_cons_of_mem _ within)
    rw [List.length_append, ← Nat.add_assoc] at label ⊢
    obtain ⟨first, behind⟩ := codeAt_append.1 placed
    refine reaches_caseOf distinct here kind first label fun s => ?_
    have length : start + ([.item (.instruction (site.compare register value)),
        site.goto (Flag.z.branch false) next] ++ block.body ++
        [site.jump done, site.label next]).length =
        start + 1 + 1 + block.body.length + 1 + 1 := by
      simp only [List.length_append, List.length_cons, List.length_nil]
      omega
    rw [length] at behind label ⊢
    exact ih later behind label
  | @byDefault block others nexts code kind rest ih =>
    -- A default runs, and is the last of its kind.
    have here := structured block (List.mem_cons_self ..)
    refine reaches_byDefault distinct here kind (codeAt_append.1 placed).1 label fun none => ?_
    subst none
    cases rest
    simp

end Cases

end Forms

end Machine

/-- The code of a conditional does what the conditional does by its structure. -/
theorem LoweredTo.reaches {σ : Type} {m : Machine σ} {program code : List Stmt} {start : Nat}
    {c : Conditional Stmt} {names : List String} (lowered : LoweredTo c names code)
    (inside : ∀ block ∈ c.blocks, ∀ stmt ∈ block.body, stmt.Structured)
    (distinct : (CrossAsm.labelNames program).Nodup) (placed : CodeAt program start code) (s : σ) :
    m.Reaches program 1 start s (start + code.length) (m.effect (.conditional c) s) := by
  -- One lemma for each form.
  have first := inside c.first (List.mem_cons_self ..)
  cases lowered with
  | ifThen form tested => exact Machine.reaches_ifThen distinct first form tested placed
  | ifElse form tested only =>
    have other := inside _ (List.mem_cons_of_mem _ (only ▸ List.mem_cons_self ..))
    exact Machine.reaches_ifElse distinct first other form tested only placed
  | whileLoop form tested => exact Machine.reaches_whileLoop distinct first form tested placed
  | doWhile form tested => exact Machine.reaches_doWhile distinct first form tested placed
  | forever form => exact Machine.reaches_forever distinct first form placed
  | switch form selected cases =>
    simp only [codeAt_append, codeAt_cons, codeAt_nil, and_true] at placed
    rw [List.length_append, List.length_singleton, ← Nat.add_assoc]
    exact (Machine.reaches_cases distinct
      (fun other within => inside other (List.mem_cons_of_mem _ within)) cases placed.1
      placed.2).congr fun t => (Machine.effect_switch form selected).symm

end CrossAsm
