import CrossAsm.Proofs.Lowering.Preservation

/-! Which block of a switch runs. The blocks are tried in the order in which they are declared, and a
default runs when it is reached: so it hides the cases behind it, and runs if none of those ahead of it
is equal to the register. -/

namespace CrossAsm

namespace Machine

variable {σ : Type} (m : Machine σ)

/-- Whether a switch that comes to a block runs it: a case whose value the register holds, or a
default. -/
def takes (register : Register) (s : σ) (block : Block Stmt) : Bool :=
  match block.clause.kind with
  | .caseOf value => m.register register s = lowByte (m.value value).toInt
  | .byDefault => true
  | _ => false

/-- The state after the compare of a block, if it has one. -/
def compareOne (site : Site) (register : Register) (s : σ) (block : Block Stmt) : σ :=
  match block.clause.kind with
  | .caseOf value => m.exec (site.compare register value) s
  | _ => s

/-- The state after the compares of blocks in order. -/
def compareAll (site : Site) (register : Register) (blocks : List (Block Stmt)) (s : σ) : σ :=
  blocks.foldl (m.compareOne site register) s

/-- Whether a compare leaves all registers as they are. -/
def ComparesKeep : Prop :=
  ∀ (site : Site) (register : Register) (e : Expr) (s : σ) (other : Register),
    m.register other (m.exec (site.compare register e) s) = m.register other s

variable {m} {site : Site} {register : Register} {s t : σ} {block : Block Stmt}
  {front back : List (Block Stmt)}

/-- What is taken is the same after a compare. -/
theorem takes_compareOne (keep : m.ComparesKeep) (other : Block Stmt) :
    m.takes register (m.compareOne site register s other) block = m.takes register s block := by
  -- Only the register decides, and it stays.
  have same : m.register register (m.compareOne site register s other) = m.register register s := by
    unfold compareOne
    split
    · exact keep site register _ s register
    · rfl
  simp only [takes, same]

/-- What is taken is the same after any compares. -/
theorem takes_compareAll (keep : m.ComparesKeep) (others : List (Block Stmt)) (s : σ) :
    m.takes register (m.compareAll site register others s) block = m.takes register s block := by
  -- By induction on the blocks, each of which compares at most once.
  induction others generalizing s with
  | nil => rfl
  | cons first others ih =>
    rw [compareAll, List.foldl_cons, ← compareAll, ih, takes_compareOne keep]

/-- A switch passes over the blocks that it does not take, and leaves what their compares leave. -/
theorem select_passed (keep : m.ComparesKeep)
    (passed : ∀ block ∈ front, m.takes register s block = false)
    (kinds : ∀ block ∈ front,
      (∃ value, block.clause.kind = .caseOf value) ∨ block.clause.kind = .byDefault) :
    m.select site register (m.effectBlocks (front ++ back)) s t ↔
      m.select site register (m.effectBlocks back) (m.compareAll site register front s) t := by
  -- By induction on the blocks that are passed over.
  induction front generalizing s with
  | nil => rfl
  | cons first others ih =>
    rw [List.forall_mem_cons] at passed kinds
    rcases kinds.1 with ⟨value, kind⟩ | kind
    · -- The case is not equal, so the others are tried with what the compare has left.
      have unequal : m.register register s ≠ lowByte (m.value value).toInt := by
        simpa [takes, kind] using passed.1
      have compared : m.compareOne site register s first = m.exec (site.compare register value) s := by
        simp [compareOne, kind]
      have later : ∀ block ∈ others,
          m.takes register (m.compareOne site register s first) block = false := by
        intro block inside
        rw [takes_compareOne keep]
        exact passed.2 block inside
      rw [compareAll, List.foldl_cons, ← compareAll, ← ih later kinds.2, compared]
      simp [effectBlocks, select, kind, unequal]
    · -- A default is taken.
      have taken : m.takes register s first = true := by simp [takes, kind]
      rw [taken] at passed
      cases passed.1

/-- A switch runs a block that it takes, after the compare of the block. -/
theorem select_taken (taken : m.takes register s block = true) :
    m.select site register (m.effectBlocks (block :: back)) s t ↔
      m.effectAll block.body (m.compareOne site register s block) t := by
  -- A block is taken as an equal case or as a default.
  unfold takes at taken
  split at taken
  · rename_i value kind
    simp [effectBlocks, select, compareOne, kind, of_decide_eq_true taken]
  · rename_i kind
    simp [effectBlocks, select, compareOne, kind]
  · cases taken

end Machine

/-- The code of a switch ends as the switch selects. -/
theorem switch_halts {σ : Type} {m : Machine σ} {c : Conditional Stmt} {register : Register}
    (form : c.form = .switch ∨ c.form = .switchDefault) (formed : c.WellFormed)
    (selected : c.first.clause.kind = .switchOn register)
    (structured : ∀ block ∈ c.others, ∀ stmt ∈ block.body, stmt.Structured) (session : Session) :
    ∃ code session', Lowering.conditional c session = .ok code session' ∧ ∀ s t,
      m.Halts code 0 s t ↔ m.select c.site register (m.effectBlocks c.others) s t := by
  -- The block that names the register holds nothing, so all that is inside is structured.
  have inside : ∀ block ∈ c.blocks, ∀ stmt ∈ block.body, stmt.Structured := by
    have empty : c.first.body = [] := by
      unfold Conditional.WellFormed at formed
      rcases form with form | form <;> rw [form] at formed <;> exact formed.2.1
    intro block within
    rcases List.mem_cons.1 within with rfl | other
    · rw [empty]
      exact nofun
    · exact structured block other
  have whole : ∀ stmt ∈ [Stmt.conditional c], stmt.Structured := by
    rw [List.forall_mem_singleton]
    exact .conditional formed inside
  -- The code is what lowering the list of this one conditional comes to.
  obtain ⟨code, session', names, ran, -, -⟩ := lowering_run formed session
  refine ⟨code, session', ran, fun s t => ?_⟩
  -- Lowering it is one step on the list.
  have lowers : LowersOne ([.conditional c], session) (code, session') := by
    have one : LowersOne ([] ++ .conditional c :: [], session) ([] ++ code ++ [], session') :=
      .lower ran
    simpa using one
  calc m.Halts code 0 s t
    _ ↔ m.Halts [.conditional c] 0 s t :=
      (InProgress.ofStructured session whole).halts_lowers (.single lowers) s t
    _ ↔ m.effectAll [.conditional c] s t := halts_structured whole s t
    _ ↔ m.effect (.conditional c) s t := by simp [Machine.effectAll, Machine.effects, Effect.sequence]
    _ ↔ m.select c.site register (m.effectBlocks c.others) s t := Machine.effect_switch form selected

/-- A switch runs the first of its blocks, in the order in which they are declared, that is a case equal
to the register or a default, and no other. So the first equal case runs if no default stands ahead of
it, and a default runs if, and only if, no case ahead of it is equal. If there is no such block, nothing
but the compares is done. -/
theorem switch_runs_first {σ : Type} (m : Machine σ) (keep : m.ComparesKeep) {c : Conditional Stmt}
    {register : Register} (form : c.form = .switch ∨ c.form = .switchDefault) (formed : c.WellFormed)
    (selected : c.first.clause.kind = .switchOn register)
    (structured : ∀ block ∈ c.others, ∀ stmt ∈ block.body, stmt.Structured) (session : Session) :
    ∃ code session', Lowering.conditional c session = .ok code session' ∧
      (∀ front block back, c.others = front ++ block :: back → ∀ s,
        (∀ other ∈ front, m.takes register s other = false) → m.takes register s block = true →
        ∀ t, m.Halts code 0 s t ↔
          m.effectAll block.body (m.compareAll c.site register (front ++ [block]) s) t) ∧
      ∀ s, (∀ block ∈ c.others, m.takes register s block = false) →
        ∀ t, m.Halts code 0 s t ↔ t = m.compareAll c.site register c.others s := by
  -- The blocks are all cases or defaults, since the switch is well formed.
  have kinds : ∀ block ∈ c.others,
      (∃ value, block.clause.kind = .caseOf value) ∨ block.clause.kind = .byDefault := by
    unfold Conditional.WellFormed at formed
    rcases form with form | form <;> rw [form] at formed <;> exact formed.2.2
  obtain ⟨code, session', ran, halts⟩ := switch_halts (m := m) form formed selected structured session
  refine ⟨code, session', ran, ?taken, ?none⟩
  -- The blocks in front are passed, and then the block is taken.
  case taken =>
    intro front block back blocks s passed taken t
    have before : ∀ other ∈ front,
        (∃ value, other.clause.kind = .caseOf value) ∨ other.clause.kind = .byDefault := by
      intro other inside
      exact kinds other (blocks ▸ List.mem_append_left _ inside)
    -- The compares ahead of the block leave the register, so the block is still taken.
    have still : m.takes register (m.compareAll c.site register front s) block = true := by
      rw [Machine.takes_compareAll keep, taken]
    rw [halts, blocks, Machine.select_passed keep passed before, Machine.select_taken still]
    rw [Machine.compareAll, Machine.compareAll, List.foldl_append]
    rfl
  -- If no block is taken, all of them are passed, and nothing is left.
  case none =>
    intro s passed t
    have all : m.select c.site register (m.effectBlocks (c.others ++ [])) s t ↔
        m.select c.site register (m.effectBlocks []) (m.compareAll c.site register c.others s) t :=
      Machine.select_passed keep passed kinds
    rw [List.append_nil] at all
    rw [halts, all]
    simp [Machine.effectBlocks, Machine.select, eq_comm]

/-- A switch whose default, which counts once, stands between two cases that count twice. -/
def defaultBetween : Conditional Stmt :=
  let down : Stmt := .item (.instruction (.unresolved .dex .none .global default))
  { form := .switchDefault
    first := { clause := ⟨.switchOn .x, default⟩ }
    others := [
      { clause := ⟨.caseOf (.number 3), default⟩, body := [down, down] },
      { clause := ⟨.byDefault, default⟩, body := [down] },
      { clause := ⟨.caseOf (.number 1), default⟩, body := [down, down] }]
    ns := .global }

/-- The blocks of the switch hold instructions. -/
theorem defaultBetween_structured :
    ∀ block ∈ defaultBetween.others, ∀ stmt ∈ block.body, stmt.Structured := by
  -- There are three blocks, with five instructions.
  simp only [defaultBetween, List.forall_mem_cons, List.not_mem_nil, false_imp_iff, implies_true,
    and_true]
  exact ⟨⟨.instruction rfl, .instruction rfl⟩, .instruction rfl, .instruction rfl, .instruction rfl⟩

/-- With one in the register the switch runs its default, so it counts once. -/
theorem defaultBetween_runs :
    ∃ code session', Lowering.conditional defaultBetween { cpu := .nmos } = .ok code session' ∧
      counter.Halts code 0 (1, false) (0, true) := by
  -- The first case is not equal to one, so that the default behind it is taken.
  have keep : counter.ComparesKeep := fun _ _ _ _ _ => rfl
  obtain ⟨code, session', ran, taken, -⟩ := switch_runs_first counter keep (.inr rfl)
    (by simp [Conditional.WellFormed, defaultBetween]) rfl defaultBetween_structured { cpu := .nmos }
  refine ⟨code, session', ran, ?_⟩
  have runs := taken [_] _ [_] rfl (1, false) (by simp only [List.forall_mem_singleton]; decide) rfl
    (0, true)
  rw [runs]
  exact ⟨_, rfl, rfl⟩

/-- The case for one is the only one that is equal then, and it would count twice. -/
theorem defaultBetween_hides :
    ∃ code session' equal, Lowering.conditional defaultBetween { cpu := .nmos } = .ok code session' ∧
      equal ∈ defaultBetween.others ∧ equal.clause.kind = .caseOf (.number 1) ∧
      counter.register .x (1, false) = lowByte (counter.value (.number 1)).toInt ∧
      counter.Halts code 0 (1, false) (0, true) ∧
      ∀ flag, ¬ counter.effectAll equal.body (1, flag) (0, true) := by
  -- The code of the switch halts as its effect says, which is evaluated.
  obtain ⟨code, session', ran, halts⟩ := switch_halts (m := counter) (.inr rfl)
    (by simp [Conditional.WellFormed, defaultBetween]) rfl defaultBetween_structured { cpu := .nmos }
  refine ⟨code, session', defaultBetween.others[2], ran, by simp, rfl, rfl, ?_, ?_⟩
  · rw [halts]
    exact ⟨_, rfl, rfl⟩
  · -- Two counts lead below zero.
    rintro flag ⟨_, rfl, _, rfl, same⟩
    have ends : counter.exec (.unresolved .dex .none .global default)
        (counter.exec (.unresolved .dex .none .global default) (1, flag)) ≠ (0, true) := by
      cases flag <;> decide
    exact ends same

end CrossAsm
