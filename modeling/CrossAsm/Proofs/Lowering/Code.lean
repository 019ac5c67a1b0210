import CrossAsm.Proofs.Lowering.Machine

/-! What a conditional is lowered to: the shape of its code, and the labels minted for it, which no
statement had before. -/

namespace CrossAsm

/-- Labels minted at different counts have different names. -/
theorem Session.labelName_inj {a b : Nat} :
    Session.labelName a = Session.labelName b ↔ a = b := by
  -- Only the direction from the names to the counts needs a proof.
  constructor
  · intro same
    -- Behind the common letters stand the digits, and digits can be read back.
    have digits : Nat.toDigits 10 a = Nat.toDigits 10 b := by
      have repr : a.repr = b.repr := by simpa [Session.labelName] using same
      simpa using congrArg String.toList repr
    rw [← Nat.ofDigitChars_ten_toDigits (n := a), digits, Nat.ofDigitChars_ten_toDigits]
  · rintro rfl
    rfl

/-- The names bound by the labels of a list, in order. -/
def labelNames (stmts : List Stmt) : List String :=
  stmts.filterMap Stmt.labelName?

@[simp]
theorem labelNames_nil : labelNames [] = [] :=
  rfl

@[simp]
theorem labelNames_cons (stmt : Stmt) (others : List Stmt) :
    labelNames (stmt :: others) = stmt.labelName?.toList ++ labelNames others := by
  -- A statement binds one label or none.
  cases named : stmt.labelName? <;> simp [labelNames, named]

@[simp]
theorem labelNames_append (first second : List Stmt) :
    labelNames (first ++ second) = labelNames first ++ labelNames second := by
  -- Labels are picked statement by statement.
  simp [labelNames]

@[simp]
theorem instruction_name (line : Instruction) :
    (Stmt.item (.instruction line)).labelName? = none :=
  rfl

namespace Test

/-- The opposite of a test holds where the test fails. -/
@[simp]
theorem not_branchIfHolds (test : Test) : test.not.branchIfHolds = test.branchIfFails := by
  -- The opposite has the other polarity and is otherwise the same.
  obtain ⟨distance, polarity, condition⟩ := test
  cases polarity <;> simp [branchIfHolds, branchIfFails, flag, not, Polarity.flip]

/-- The opposite of a test fails where the test holds. -/
@[simp]
theorem not_branchIfFails (test : Test) : test.not.branchIfFails = test.branchIfHolds := by
  -- The opposite has the other polarity and is otherwise the same.
  obtain ⟨distance, polarity, condition⟩ := test
  cases polarity <;> simp [branchIfHolds, branchIfFails, flag, not, Polarity.flip]

end Test

namespace Site

variable (site : Site)

@[simp]
theorem label_name (name : String) : (site.label name).labelName? = some name :=
  rfl

@[simp]
theorem inst_name (op : Op) (operand : Operand Expr) :
    (site.inst op operand).labelName? = none :=
  rfl

@[simp]
theorem goto_name (op : Op) (target : String) : (site.goto op target).labelName? = none :=
  rfl

@[simp]
theorem jump_name (target : String) : (site.jump target).labelName? = none :=
  rfl

/-- The code that goes to a label unless a test holds; a far test has a label of its own. -/
def leaveCode (test : Test) (target past : String) : List Stmt :=
  match test.distance with
  | .near => [site.goto test.branchIfFails target]
  | .far => [site.goto test.branchIfHolds past, site.jump target, site.label past]

/-- The label that a far test has of its own. -/
def ownLabels (test : Test) (past : String) : List String :=
  match test.distance with
  | .near => []
  | .far => [past]

/-- The code of the cases of a switch, and the labels to which they go on. -/
inductive CasesCode (register : Register) (done : String) :
    List (Block Stmt) → List String → List Stmt → Prop
  | nil : CasesCode register done [] [] []
  | caseOf {block : Block Stmt} {others : List (Block Stmt)} {value : Expr} {next : String}
    {nexts : List String} {code : List Stmt} (kind : block.clause.kind = .caseOf value)
    (rest : CasesCode register done others nexts code) :
    CasesCode register done (block :: others) (next :: nexts)
      ([.item (.instruction (site.compare register value)), site.goto (Flag.z.branch false) next] ++
        block.body ++ [site.jump done, site.label next] ++ code)
  | byDefault {block : Block Stmt} {others : List (Block Stmt)} {nexts : List String}
    {code : List Stmt} (kind : block.clause.kind = .byDefault)
    (rest : CasesCode register done others nexts code) :
    CasesCode register done (block :: others) nexts
      (block.body ++ (if others.isEmpty then [] else [site.jump done]) ++ code)

end Site

/-- Where the code of a conditional stands. -/
def Conditional.site (c : Conditional Stmt) : Site := ⟨c.ns, c.pos⟩

/-- The code of a conditional, and the labels minted for it in order. -/
inductive LoweredTo (c : Conditional Stmt) : List String → List Stmt → Prop
  | ifThen {test : Test} {after past : String} (form : c.form = .ifThen)
    (tested : c.first.clause.test? = some test) :
    LoweredTo c (after :: Site.ownLabels test past)
      (c.site.leaveCode test after past ++ c.first.body ++ [c.site.label after])
  | ifElse {test : Test} {other : Block Stmt} {otherwise after past : String}
    (form : c.form = .ifElse) (tested : c.first.clause.test? = some test)
    (only : c.others = [other]) :
    LoweredTo c (otherwise :: after :: Site.ownLabels test past)
      (c.site.leaveCode test otherwise past ++ c.first.body ++
        [c.site.jump after, c.site.label otherwise] ++ other.body ++ [c.site.label after])
  | whileLoop {test : Test} {head exit past : String} (form : c.form = .whileLoop)
    (tested : c.first.clause.test? = some test) :
    LoweredTo c (head :: exit :: Site.ownLabels test past)
      (c.site.label head :: c.site.leaveCode test exit past ++ c.first.body ++
        [c.site.jump head, c.site.label exit])
  | doWhile {test : Test} {head past : String} (form : c.form = .doWhile)
    (tested : c.post = some test) :
    LoweredTo c (head :: Site.ownLabels test.not past)
      (c.site.label head :: c.first.body ++ c.site.leaveCode test.not head past)
  | forever {head : String} (form : c.form = .forever) :
    LoweredTo c [head] (c.site.label head :: c.first.body ++ [c.site.jump head])
  | switch {register : Register} {nexts : List String} {done : String} {code : List Stmt}
    (form : c.form = .switch ∨ c.form = .switchDefault)
    (selected : c.first.clause.kind = .switchOn register)
    (cases : c.site.CasesCode register done c.others nexts code) :
    LoweredTo c (nexts ++ [done]) (code ++ [c.site.label done])

/-- The names of the labels that a session mints next. -/
def Session.fresh (session : Session) (count : Nat) : List String :=
  (List.range' session.labels count).map Session.labelName

/-- A session goes on with labels of the given names minted. -/
structure Session.Mints (session : Session) (names : List String) (session' : Session) : Prop where
  /-- Every label is counted. -/
  counted : session'.labels = session.labels + names.length
  /-- The names are those that come next. -/
  named : names = session.fresh names.length

namespace Session.Mints

variable {session session' : Session} {names : List String}

/-- Minting nothing. -/
theorem nil : session.Mints [] session :=
  ⟨rfl, rfl⟩

/-- Minting one label before others. -/
theorem cons {pos : Pos} (rest : (session.mint pos).2.Mints names session') :
    session.Mints (Session.labelName session.labels :: names) session' := by
  -- The first name is that of the count, and the others are counted from the next one on.
  obtain ⟨counted, named⟩ := rest
  constructor
  · rw [counted, List.length_cons]
    simp only [Session.mint]
    omega
  · rw [Session.fresh, List.length_cons, List.range'_succ, List.map_cons]
    exact congrArg _ named

/-- Minting one label behind others. -/
theorem snoc {pos : Pos} (rest : session.Mints names session') :
    session.Mints (names ++ [Session.labelName session'.labels]) (session'.mint pos).2 := by
  -- The last name is that of the count which the others have led to.
  obtain ⟨counted, named⟩ := rest
  constructor
  · simp only [Session.mint, counted, List.length_append, List.length_singleton]
    omega
  · rw [Session.fresh, List.length_append, List.length_singleton, List.range'_concat,
      List.map_append, ← Session.fresh, ← named]
    simp [counted]

/-- A minted name stands for a count between those of the two sessions. -/
theorem mem {name : String} (minted : session.Mints names session') (inside : name ∈ names) :
    ∃ count, session.labels ≤ count ∧ count < session'.labels ∧
      name = Session.labelName count := by
  -- The names are those of a range of counts.
  rw [minted.named, Session.fresh, List.mem_map] at inside
  obtain ⟨count, within, rfl⟩ := inside
  rw [List.mem_range'_1] at within
  exact ⟨count, within.1, minted.counted ▸ within.2, rfl⟩

/-- No name is minted twice. -/
theorem nodup (minted : session.Mints names session') : names.Nodup := by
  -- Different counts have different names.
  rw [minted.named]
  exact List.Pairwise.map _ (fun _ _ => mt Session.labelName_inj.1) (List.nodup_range' ..)

end Session.Mints

namespace Site

variable (site : Site)

/-- Minting gives the next name. -/
theorem newLabel_run (session : Session) :
    site.newLabel session =
      .ok (Session.labelName session.labels) (session.mint site.pos).2 :=
  rfl

/-- Leaving unless a test holds mints the label of a far test only. -/
theorem leaveUnless_run (test : Test) (target : String) (session : Session) :
    ∃ past session', site.leaveUnless test target session =
        .ok (site.leaveCode test target past) session' ∧
      session.Mints (ownLabels test past) session' := by
  -- A near test is one branch; a far one jumps, and branches past the jump to a label of its own.
  unfold leaveUnless leaveCode ownLabels
  cases test.distance with
  | near => exact ⟨"", session, rfl, .nil⟩
  | far => exact ⟨_, _, rfl, .cons .nil⟩

/-- Repeating if a test holds is leaving unless its opposite does. -/
theorem repeatIf_eq (test : Test) (target : String) :
    site.repeatIf test target = site.leaveUnless test.not target := by
  -- To go back is to leave backwards, so only the two branches are swapped.
  unfold repeatIf leaveUnless
  rw [Test.not_branchIfHolds, Test.not_branchIfFails]
  rfl

/-- The labels of cases are minted one after another, none for a default, and the code of the cases
has them in the same order. -/
theorem caseLabels_run (blocks : List (Block Stmt)) (session : Session)
    (formed : ∀ block ∈ blocks,
      (∃ value, block.clause.kind = .caseOf value) ∨ block.clause.kind = .byDefault) :
    ∃ labelled session' nexts, site.caseLabels blocks session = .ok labelled session' ∧
      session.Mints nexts session' ∧ labelled.isEmpty = blocks.isEmpty ∧
      ∀ register done, ∃ code, site.cases (Register.compare register) done labelled = .ok code ∧
        site.CasesCode register done blocks nexts code := by
  -- Each block mints at most one label, so the names of the others start behind it.
  induction blocks generalizing session with
  | nil => exact ⟨[], session, [], rfl, .nil, rfl, fun _ _ => ⟨[], rfl, .nil⟩⟩
  | cons block others ih =>
    have formedOthers := fun other inside => formed other (List.mem_cons_of_mem _ inside)
    rcases formed block (List.mem_cons_self ..) with ⟨value, kind⟩ | kind
    · obtain ⟨labelled, session', nexts, ran, minted, sized, coded⟩ :=
        ih (session.mint site.pos).2 formedOthers
      refine ⟨(block, some (Session.labelName session.labels)) :: labelled, session', _, ?_,
        minted.cons, rfl, fun register done => ?_⟩
      · simp only [caseLabels, kind, Bind.bind, EStateM.bind, newLabel_run, Pure.pure,
          EStateM.pure, ran]
      · obtain ⟨code, caseCode, shape⟩ := coded register done
        refine ⟨_, ?_, .caseOf kind shape⟩
        simp [cases, caseOf, kind, caseCode, Bind.bind, Except.bind, Pure.pure, Except.pure,
          compare, inst]
    · obtain ⟨labelled, session', nexts, ran, minted, sized, coded⟩ := ih session formedOthers
      refine ⟨(block, none) :: labelled, session', nexts, ?_, minted, rfl, fun register done => ?_⟩
      · simp only [caseLabels, kind, Bind.bind, EStateM.bind, Pure.pure, EStateM.pure, ran]
      · obtain ⟨code, caseCode, shape⟩ := coded register done
        refine ⟨_, ?_, .byDefault kind shape⟩
        simp [cases, caseOf, kind, caseCode, Bind.bind, Except.bind, Pure.pure, Except.pure, sized]

end Site

/-- A well-formed conditional is always lowered, with labels that come next in the session. -/
theorem lowering_run {c : Conditional Stmt} (formed : c.WellFormed) (session : Session) :
    ∃ code session' names, Lowering.conditional c session = .ok code session' ∧
      LoweredTo c names code ∧ session.Mints names session' := by
  -- Each form mints its own labels first, and the label of a far test behind them.
  have site : (⟨c.ns, c.pos⟩ : Site) = c.site := rfl
  unfold Conditional.WellFormed at formed
  split at formed
  -- An `if` mints the label behind it.
  case h_1 form =>
    obtain ⟨⟨test, kind⟩, -⟩ := formed
    have tested : c.first.clause.test? = some test := by simp [Clause.test?, kind]
    obtain ⟨past, session', left, minted⟩ := c.site.leaveUnless_run test
      (Session.labelName session.labels) (session.mint c.site.pos).2
    refine ⟨_, session', _, ?_, .ifThen form tested, minted.cons⟩
    simp only [Lowering.conditional, form, Lowering.testOf, tested, Site.ifThen, Bind.bind,
      EStateM.bind, Pure.pure, EStateM.pure, site, Site.newLabel_run, left]
  -- With an `else` there are two labels, behind either body.
  case h_2 form =>
    obtain ⟨⟨test, kind⟩, other, only, -⟩ := formed
    have tested : c.first.clause.test? = some test := by simp [Clause.test?, kind]
    obtain ⟨past, session', left, minted⟩ := c.site.leaveUnless_run test
      (Session.labelName session.labels) ((session.mint c.site.pos).2.mint c.site.pos).2
    refine ⟨_, session', _, ?_, .ifElse form tested only, minted.cons.cons⟩
    simp only [Lowering.conditional, form, Lowering.testOf, tested, only, Site.ifElse, Bind.bind,
      EStateM.bind, Pure.pure, EStateM.pure, site, Site.newLabel_run, left]
  -- A loop has a label at its head and one behind it.
  case h_3 form =>
    obtain ⟨⟨test, kind⟩, -⟩ := formed
    have tested : c.first.clause.test? = some test := by simp [Clause.test?, kind]
    obtain ⟨past, session', left, minted⟩ := c.site.leaveUnless_run test
      (Session.labelName (session.mint c.site.pos).2.labels)
      ((session.mint c.site.pos).2.mint c.site.pos).2
    refine ⟨_, session', _, ?_, .whileLoop form tested, minted.cons.cons⟩
    simp only [Lowering.conditional, form, Lowering.testOf, tested, Site.whileLoop, Bind.bind,
      EStateM.bind, Pure.pure, EStateM.pure, site, Site.newLabel_run, left]
  -- A test behind the body goes back to the head, so that the head has the only label.
  case h_4 form =>
    obtain ⟨-, -, test, tested⟩ := formed
    obtain ⟨past, session', left, minted⟩ := c.site.leaveUnless_run test.not
      (Session.labelName session.labels) (session.mint c.site.pos).2
    refine ⟨_, session', _, ?_, .doWhile form tested, minted.cons⟩
    simp only [Lowering.conditional, form, tested, Site.doWhile, Bind.bind, EStateM.bind,
      Pure.pure, EStateM.pure, site, Site.newLabel_run, Site.repeatIf_eq, left]
  -- Without a test there is nothing else to mint.
  case h_5 form =>
    refine ⟨_, (session.mint c.site.pos).2, _, ?_, .forever form, .cons .nil⟩
    simp only [Lowering.conditional, form, Site.forever, Bind.bind, EStateM.bind, Pure.pure,
      EStateM.pure, site, Site.newLabel_run]
  case h_8 => exact formed.elim
  case h_9 => exact formed.elim
  -- A switch mints one label for each case, and then the one of its end.
  all_goals
    rename_i form
    obtain ⟨⟨register, selected⟩, -, kinds⟩ := formed
    obtain ⟨labelled, session', nexts, ran, minted, -, coded⟩ :=
      c.site.caseLabels_run c.others session kinds
    obtain ⟨code, cased, shape⟩ := coded register (Session.labelName session'.labels)
    refine ⟨_, (session'.mint c.site.pos).2, _, ?_, .switch (by simp [form]) selected shape,
      minted.snoc⟩
    simp only [Lowering.conditional, form, selected, Site.switch, Bind.bind, EStateM.bind,
      Pure.pure, EStateM.pure, site, ran, Site.newLabel_run, cased]

/-- A structured statement binds no label. -/
theorem Stmt.Structured.labelName? {stmt : Stmt} (structured : stmt.Structured) :
    stmt.labelName? = none := by
  -- Labels are no structured statements.
  cases structured <;> rfl

/-- Structured statements bind no labels. -/
theorem labelNames_structured {stmts : List Stmt} (structured : ∀ stmt ∈ stmts, stmt.Structured) :
    labelNames stmts = [] := by
  -- None of the statements adds to the list.
  rw [labelNames, List.filterMap_eq_nil_iff]
  exact fun stmt inside => (structured stmt inside).labelName?

/-- A statement of a list in which conditionals are being lowered: a label or a branch whose name is
known, an instruction that leaves control alone, or a statement that was there before. -/
inductive Stmt.Lowered (known : String → Prop) (old : Stmt → Prop) : Stmt → Prop
  | label {l : Label} (bound : known l.name) : Lowered known old (.item (.label l))
  | goto {line : Instruction} (bound : ∀ name, line.target? = some name → known name) :
    Lowered known old (.item (.instruction line))
  | straight {line : Instruction} (straight : line.op.flow = .next) :
    Lowered known old (.item (.instruction line))
  | old {stmt : Stmt} (before : old stmt) : Lowered known old stmt

namespace Stmt.Lowered

variable {known : String → Prop} {old : Stmt → Prop}

/-- With more names known, a statement is still lowered. -/
theorem mono {more : String → Prop} {stmt : Stmt} (weaker : ∀ name, known name → more name)
    (lowered : stmt.Lowered known old) : stmt.Lowered more old := by
  -- Names stand only in labels and in targets.
  cases lowered with
  | label bound => exact .label (weaker _ bound)
  | goto bound => exact .goto fun name targeted => weaker name (bound name targeted)
  | straight straight => exact .straight straight
  | old before => exact .old before

/-- A label of a known name. -/
theorem ofLabel (site : Site) {name : String} (bound : known name) :
    (site.label name).Lowered known old :=
  .label bound

/-- A branch to a known label. -/
theorem ofGoto (site : Site) (op : Op) {name : String} (bound : known name) :
    (site.goto op name).Lowered known old := by
  -- The name of the label is all that the branch refers to.
  refine .goto fun target targeted => ?_
  cases targeted
  exact bound

/-- A jump to a known label. -/
theorem ofJump (site : Site) {name : String} (bound : known name) :
    (site.jump name).Lowered known old :=
  ofGoto site .jmp bound

/-- A compare of a switch. -/
theorem ofCompare (site : Site) (register : Register) (value : Expr) :
    Stmt.Lowered known old (.item (.instruction (site.compare register value))) :=
  .straight register.compare_flow

end Stmt.Lowered

namespace Site

variable (site : Site)

/-- A test that leaves binds the label of a far test only. -/
@[simp]
theorem labelNames_leaveCode (test : Test) (target past : String) :
    labelNames (site.leaveCode test target past) = ownLabels test past := by
  -- Only the code of a far test has a label in it, to jump past.
  unfold leaveCode ownLabels
  cases test.distance <;> simp

/-- A test that leaves goes to its target or to its own label. -/
theorem leaveCode_lowered {known : String → Prop} {old : Stmt → Prop} {test : Test} {target past : String}
    (bound : known target) (own : ∀ name ∈ ownLabels test past, known name) :
    ∀ stmt ∈ site.leaveCode test target past, stmt.Lowered known old := by
  -- A near test goes to the target only; a far one to its own label too, which it binds.
  unfold leaveCode
  unfold ownLabels at own
  cases distance : test.distance with
  | near =>
    rw [List.forall_mem_singleton]
    exact .ofGoto site _ bound
  | far =>
    have far : known past := own past (by simp [distance])
    simp only [List.forall_mem_cons, List.not_mem_nil,
      false_imp_iff, implies_true, and_true]
    exact ⟨.ofGoto site _ far, .ofJump site bound, .ofLabel site far⟩

/-- The cases of a switch bind the labels to which they go on. -/
theorem CasesCode.labelNames {register : Register} {done : String} {blocks : List (Block Stmt)}
    {nexts : List String} {code : List Stmt}
    (inside : ∀ block ∈ blocks, ∀ stmt ∈ block.body, stmt.Structured)
    (cases : site.CasesCode register done blocks nexts code) :
    CrossAsm.labelNames code = nexts := by
  -- A case binds the label behind it, a default none, and the bodies bind none at all.
  induction cases with
  | nil => rfl
  | @caseOf block _ _ _ _ _ _ _ ih =>
    have body := labelNames_structured (inside block (List.mem_cons_self ..))
    have others := ih fun other within => inside other (List.mem_cons_of_mem _ within)
    simp [body, others]
  | @byDefault block blocks _ _ _ _ ih =>
    have body := labelNames_structured (inside block (List.mem_cons_self ..))
    have others := ih fun other within => inside other (List.mem_cons_of_mem _ within)
    cases blocks <;> simp [body, others]

/-- The cases of a switch go to the end, or to the labels to which they go on. -/
theorem CasesCode.lowered {register : Register} {done : String} {blocks : List (Block Stmt)}
    {nexts : List String} {code : List Stmt} {known : String → Prop} {old : Stmt → Prop}
    (inside : ∀ block ∈ blocks, ∀ stmt ∈ block.body, old stmt)
    (cases : site.CasesCode register done blocks nexts code) (end_ : known done)
    (bound : ∀ next ∈ nexts, known next) : ∀ stmt ∈ code, stmt.Lowered known old := by
  -- Around each body stand a compare, branches to the next case or the end, and a label.
  induction cases with
  | nil => simp
  | @caseOf block _ value next _ _ _ _ ih =>
    have body := inside block (List.mem_cons_self ..)
    have others := ih (fun other within => inside other (List.mem_cons_of_mem _ within))
      fun name within => bound name (List.mem_cons_of_mem _ within)
    have here : known next := bound next (List.mem_cons_self ..)
    simp only [List.forall_mem_append, List.forall_mem_cons, List.not_mem_nil,
      false_imp_iff, implies_true, and_true]
    -- The compare, the branch to the next case, the body, the jump to the end and the label.
    exact ⟨⟨⟨⟨.ofCompare site register value, .ofGoto site _ here⟩,
      fun stmt within => .old (body stmt within)⟩,
      .ofJump site end_, .ofLabel site here⟩, others⟩
  | @byDefault block blocks _ _ _ _ ih =>
    have body := inside block (List.mem_cons_self ..)
    have others := ih (fun other within => inside other (List.mem_cons_of_mem _ within)) bound
    simp only [List.forall_mem_append]
    -- A default has no compare; its jump to the end is left out if it is the last one.
    refine ⟨⟨fun stmt within => .old (body stmt within), ?_⟩, others⟩
    split
    · intro stmt none
      cases none
    · rw [List.forall_mem_singleton]
      exact .ofJump site end_

end Site

namespace LoweredTo

variable {c : Conditional Stmt} {names : List String} {code : List Stmt}

/-- The labels of the code are the minted ones, in some order. -/
theorem labelNames (lowered : LoweredTo c names code)
    (inside : ∀ block ∈ c.blocks, ∀ stmt ∈ block.body, stmt.Structured) :
    (CrossAsm.labelNames code).Perm names := by
  -- Only in an `if` with an `else` do the labels stand in another order than they are minted.
  have first := labelNames_structured (inside c.first (List.mem_cons_self ..))
  cases lowered with
  | ifThen => simp [first]
  | ifElse form tested only =>
    have other := labelNames_structured
      (inside _ (List.mem_cons_of_mem _ (only ▸ List.mem_cons_self ..)))
    simpa [first, other] using @List.perm_append_comm _ _ [_, _]
  | whileLoop => simp [first]
  | doWhile => simp [first]
  | forever => simp [first]
  | switch _ _ cases =>
    have others := cases.labelNames _ fun other within =>
      inside other (List.mem_cons_of_mem _ within)
    simp [others]

/-- The code consists of the statements of the blocks, and of labels and branches to them. -/
theorem lowered {old : Stmt → Prop} (lowered : LoweredTo c names code)
    (inside : ∀ block ∈ c.blocks, ∀ stmt ∈ block.body, old stmt) :
    ∀ stmt ∈ code, stmt.Lowered (· ∈ names) old := by
  -- The bodies are old. All else is a label of the form, or a jump or test that goes to one.
  have first : ∀ stmt ∈ c.first.body, stmt.Lowered (· ∈ names) old :=
    fun stmt within => .old (inside c.first (List.mem_cons_self ..) stmt within)
  have end_ : ∀ {others : List String} {name : String}, name ∈ others ++ [name] := by simp
  cases lowered with
  | ifThen =>
    -- The body is left for the label behind it.
    simp only [List.forall_mem_append, List.forall_mem_cons, List.not_mem_nil,
      false_imp_iff, implies_true, and_true]
    refine ⟨⟨c.site.leaveCode_lowered (List.mem_cons_self ..) ?_, first⟩,
      .ofLabel _ (List.mem_cons_self ..)⟩
    exact fun name own => List.mem_cons_of_mem _ own
  | @ifElse test other otherwise after past form tested only =>
    -- Between the bodies stand a jump over the second one and its label.
    have second : ∀ stmt ∈ other.body,
        stmt.Lowered (· ∈ otherwise :: after :: Site.ownLabels test past) old := fun stmt within =>
      .old (inside other (List.mem_cons_of_mem _ (only ▸ List.mem_cons_self ..)) stmt within)
    have afterIn : after ∈ otherwise :: after :: Site.ownLabels test past := by simp
    simp only [List.forall_mem_append, List.forall_mem_cons, List.not_mem_nil,
      false_imp_iff, implies_true, and_true]
    refine ⟨⟨⟨⟨c.site.leaveCode_lowered (List.mem_cons_self ..) ?_, first⟩,
      .ofJump _ afterIn, .ofLabel _ (List.mem_cons_self ..)⟩, second⟩, .ofLabel _ afterIn⟩
    exact fun name own => List.mem_cons_of_mem _ (List.mem_cons_of_mem _ own)
  | @whileLoop test head exit past form tested =>
    -- The test leaves for the end, and the body goes back to the head.
    have exitIn : exit ∈ head :: exit :: Site.ownLabels test past := by simp
    simp only [List.forall_mem_append, List.forall_mem_cons, List.not_mem_nil,
      false_imp_iff, implies_true, and_true]
    refine ⟨⟨⟨.ofLabel _ (List.mem_cons_self ..), c.site.leaveCode_lowered exitIn ?_⟩, first⟩,
      .ofJump _ (List.mem_cons_self ..), .ofLabel _ exitIn⟩
    exact fun name own => List.mem_cons_of_mem _ (List.mem_cons_of_mem _ own)
  | doWhile =>
    simp only [List.forall_mem_append, List.forall_mem_cons]
    refine ⟨⟨.ofLabel _ (List.mem_cons_self ..), first⟩,
      c.site.leaveCode_lowered (List.mem_cons_self ..) ?_⟩
    exact fun name own => List.mem_cons_of_mem _ own
  | forever =>
    -- Without a test there are only the head and the way back to it.
    simp only [List.forall_mem_append, List.forall_mem_cons, List.not_mem_nil,
      false_imp_iff, implies_true, and_true]
    exact ⟨⟨.ofLabel _ (List.mem_cons_self ..), first⟩, .ofJump _ (List.mem_cons_self ..)⟩
  | switch _ _ cases =>
    -- The cases go on to each other or to the end.
    simp only [List.forall_mem_append, List.forall_mem_cons, List.not_mem_nil,
      false_imp_iff, implies_true, and_true]
    refine ⟨cases.lowered _ (fun other within => inside other (List.mem_cons_of_mem _ within))
      end_ ?_, .ofLabel _ end_⟩
    exact fun next within => List.mem_append_left _ within

/-- The code is never empty. -/
theorem length_pos (lowered : LoweredTo c names code) : 0 < code.length := by
  -- Every form binds a label.
  cases lowered <;> simp only [List.length_append, List.length_cons] <;> omega

end LoweredTo

end CrossAsm
