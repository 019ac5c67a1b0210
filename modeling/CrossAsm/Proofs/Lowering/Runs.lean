import CrossAsm.Proofs.Lowering.Code

/-! Runs of a list in which conditionals still stand: a conditional acts as a whole, and everything
else as on the machine. Counting the moves gives the loops their induction. -/

namespace CrossAsm

/-- The statements of a fragment stand in a program from a place on. -/
def CodeAt (program : List Stmt) (pc : Nat) (code : List Stmt) : Prop :=
  ∀ i stmt, code[i]? = some stmt → program[pc + i]? = some stmt

/-- Nothing stands everywhere. -/
@[simp]
theorem codeAt_nil (program : List Stmt) (pc : Nat) : CodeAt program pc [] := by
  -- There is no statement that would have to stand there.
  simp [CodeAt]

/-- A fragment stands where its first statement does and its others behind that. -/
@[simp]
theorem codeAt_cons {program : List Stmt} {pc : Nat} {stmt : Stmt} {others : List Stmt} :
    CodeAt program pc (stmt :: others) ↔
      program[pc]? = some stmt ∧ CodeAt program (pc + 1) others := by
  -- Both sides speak of the same places, counted from the first statement or from behind it.
  constructor
  · intro code
    refine ⟨code 0 stmt rfl, fun i other found => ?_⟩
    have moved := code (i + 1) other found
    rwa [← Nat.add_assoc, Nat.add_right_comm] at moved
  · rintro ⟨first, rest⟩ i other found
    cases i with
    | zero =>
      cases found
      exact first
    | succ i =>
      have moved := rest i other found
      rwa [Nat.add_right_comm, Nat.add_assoc] at moved

/-- Two fragments stand one behind the other. -/
@[simp]
theorem codeAt_append {program : List Stmt} {pc : Nat} {first second : List Stmt} :
    CodeAt program pc (first ++ second) ↔
      CodeAt program pc first ∧ CodeAt program (pc + first.length) second := by
  -- Each statement of the first fragment moves the second one on by one place.
  induction first generalizing pc with
  | nil => simp
  | cons stmt others ih =>
    simp only [List.cons_append, codeAt_cons, ih, List.length_cons, and_assoc, Nat.add_comm,
      Nat.add_left_comm]

/-- A fragment stands behind what is before it. -/
theorem codeAt_middle (before code after : List Stmt) :
    CodeAt (before ++ code ++ after) before.length code := by
  -- Dropping what is before leaves the place within the fragment.
  intro i stmt found
  have inside : i < code.length := (List.getElem?_eq_some_iff.1 found).1
  rw [List.append_assoc, List.getElem?_append_right (Nat.le_add_right ..),
    Nat.add_sub_cancel_left, List.getElem?_append_left inside, found]

/-- In a list without double labels a label is found where it stands. -/
theorem labelIndex_eq {program : List Stmt} {pc : Nat} {stmt : Stmt} {name : String}
    (distinct : (labelNames program).Nodup) (here : program[pc]? = some stmt)
    (named : stmt.labelName? = some name) : labelIndex program name = some pc := by
  -- An earlier statement of that name would make the label a double one.
  induction program generalizing pc with
  | nil => simp at here
  | cons first others ih =>
    rw [labelNames_cons] at distinct
    cases pc with
    | zero =>
      cases here
      simp [labelIndex, List.findIdx?_cons, named]
    | succ pc =>
      have later : name ∈ labelNames others := by
        rw [labelNames, List.mem_filterMap]
        exact ⟨stmt, List.mem_of_getElem? here, named⟩
      have other : first.labelName? ≠ some name := by
        intro same
        rw [same] at distinct
        exact (List.nodup_cons.1 distinct).1 later
      have found := ih (List.nodup_append.1 distinct).2.1 here
      simp only [labelIndex] at found ⊢
      simp [List.findIdx?_cons, other, found]

namespace Machine

variable {σ : Type} (m : Machine σ)

/-- A test holds if its flag has its state. -/
theorem holds_eq (test : Test) (s : σ) :
    m.holds test s = (m.flag test.flag.1 s == test.flag.2) := by
  -- Word by word: each condition names a flag and the state that it asks for.
  obtain ⟨distance, polarity, condition⟩ := test
  cases polarity <;> cases condition <;> simp [holds, meets, Test.flag, Condition.flag]

section Steps

variable {program : List Stmt} {pc : Nat} {site : Site}

/-- A label does nothing. -/
theorem step_label {name : String} (here : program[pc]? = some (site.label name)) (s : σ) :
    m.step program pc s = some (pc + 1, s) := by
  -- The machine goes on to the next place.
  simp [step, here, Site.label]

/-- A jump goes to its label. -/
theorem step_jump {name : String} {goal : Nat} (here : program[pc]? = some (site.jump name))
    (found : labelIndex program name = some goal) (s : σ) :
    m.step program pc s = some (goal, s) := by
  -- The operand of the jump is the name, and the label is looked up.
  simp [step, here, Site.jump, Site.goto, Site.inst, Instruction.unresolved, Op.flow, Machine.goal,
    Instruction.target?, found]

/-- A branch goes to its label if its flag has its state. -/
theorem step_branch {name : String} {goal : Nat} {flag : Flag} {state : Bool}
    (here : program[pc]? = some (site.goto (flag.branch state) name))
    (found : labelIndex program name = some goal) (s : σ) :
    m.step program pc s = some (if m.flag flag s = state then goal else pc + 1, s) := by
  -- The label is looked up either way, and the flag decides.
  simp only [step, here, Site.goto, Site.inst, Instruction.unresolved, Flag.branch_flow,
    Machine.goal, Instruction.target?, Option.bind_some, found, Option.map_some]
  split <;> rfl

/-- An instruction that leaves control alone changes the state. -/
theorem step_next {line : Instruction} (here : program[pc]? = some (.item (.instruction line)))
    (straight : line.op.flow = .next) (s : σ) :
    m.step program pc s = some (pc + 1, m.exec line s) := by
  -- The flow of the operation is all that the machine asks for.
  simp [step, here, straight]

end Steps

/-- A move of a list in which conditionals still stand: one of the machine, or a conditional as a
whole. -/
inductive Moves (program : List Stmt) : Nat → σ → Nat → σ → Prop
  | step {pc pc' : Nat} {s s' : σ} (stepped : m.step program pc s = some (pc', s')) :
    Moves program pc s pc' s'
  | whole {pc : Nat} {c : Conditional Stmt} {s s' : σ}
    (here : program[pc]? = some (.conditional c)) (acts : m.effect (.conditional c) s s') :
    Moves program pc s (pc + 1) s'

/-- From a place and a state, the end of a program is reached in another state after a number of
moves. -/
inductive Ends (program : List Stmt) : Nat → Nat → σ → σ → Prop
  | done (s : σ) : Ends program 0 program.length s s
  | next {count pc pc' : Nat} {s s' t : σ} (moved : m.Moves program pc s pc' s')
    (rest : Ends program count pc' s' t) : Ends program (count + 1) pc s t

/-- The end of a program is reached after some number of moves. -/
def Halts (program : List Stmt) (pc : Nat) (s t : σ) : Prop :=
  ∃ count, m.Ends program count pc s t

section Ends

variable {program : List Stmt} {pc : Nat}

/-- A place from which the machine steps is no end, and no conditional stands in it. -/
theorem ends_step {pc' : Nat} {s s' t : σ} {count : Nat}
    (stepped : m.step program pc s = some (pc', s')) :
    m.Ends program count pc s t ↔ ∃ fewer, count = fewer + 1 ∧ m.Ends program fewer pc' s' t := by
  -- The machine has one step at most, so the first move of the run is this one.
  constructor
  · intro ends
    cases ends with
    | done => simp [step] at stepped
    | next moved rest =>
      cases moved with
      | step same =>
        cases stepped.symm.trans same
        exact ⟨_, rfl, rest⟩
      | whole here _ => simp [step, here] at stepped
  · rintro ⟨fewer, rfl, rest⟩
    exact .next (.step stepped) rest

/-- A conditional acts as a whole, and the run goes on behind it. -/
theorem ends_whole {c : Conditional Stmt} {s t : σ} {count : Nat}
    (here : program[pc]? = some (.conditional c)) :
    m.Ends program count pc s t ↔ ∃ fewer mid, count = fewer + 1 ∧
      m.effect (.conditional c) s mid ∧ m.Ends program fewer (pc + 1) mid t := by
  -- The machine does not step at a conditional, so the first move takes it as a whole.
  constructor
  · intro ends
    cases ends with
    | done => simp at here
    | next moved rest =>
      cases moved with
      | step stepped => simp [step, here] at stepped
      | whole same acts =>
        cases here.symm.trans same
        exact ⟨_, _, rfl, acts, rest⟩
  · rintro ⟨fewer, mid, rfl, acts, rest⟩
    exact .next (.whole here acts) rest

end Ends

/-- From a place and a state, every run that ends comes by another place in one of the given states
after a least number of moves, and each of these states is one that a run comes by in. -/
structure Reaches (program : List Stmt) (least start : Nat) (s : σ) (stop : Nat)
    (result : σ → Prop) : Prop where
  /-- A run from the start comes by the stop. -/
  out : ∀ {count : Nat} {t : σ}, m.Ends program count start s t →
    ∃ fewer mid, fewer + least ≤ count ∧ result mid ∧ m.Ends program fewer stop mid t
  /-- A run from the stop goes on one from the start. -/
  back : ∀ {mid t : σ}, result mid → m.Halts program stop mid t → m.Halts program start s t

namespace Reaches

variable {m} {program : List Stmt} {least start stop : Nat} {s : σ} {result : σ → Prop}

/-- The results may be described otherwise. -/
theorem congr {other : σ → Prop} (same : ∀ t, result t ↔ other t)
    (reaches : m.Reaches program least start s stop result) :
    m.Reaches program least start s stop other := by
  -- Equivalent results are the same result.
  have equal : result = other := funext fun t => propext (same t)
  rwa [← equal]

/-- One step of the machine. -/
theorem last {s' : σ} (stepped : m.step program start s = some (stop, s')) :
    m.Reaches program 1 start s stop (· = s') := by
  -- A run from the start begins with this step, and one from the stop may be put behind it.
  constructor
  · intro count t ends
    obtain ⟨fewer, rfl, rest⟩ := (m.ends_step stepped).1 ends
    exact ⟨fewer, s', Nat.le_refl _, rfl, rest⟩
  · rintro mid t rfl ⟨count, ends⟩
    exact ⟨count + 1, .next (.step stepped) ends⟩

/-- What is reached from a middle place is reached from the start. -/
theorem andThen {middle more : Nat} {first : σ → Prop}
    (reaches : m.Reaches program least start s middle first) {second : σ → σ → Prop}
    (rest : ∀ mid, first mid → m.Reaches program more middle mid stop (second mid)) :
    m.Reaches program (least + more) start s stop fun t => ∃ mid, first mid ∧ second mid t := by
  -- A run comes by the middle place first, and from there by the stop.
  constructor
  · intro count t ends
    obtain ⟨fewer, mid, less, here, ends⟩ := reaches.out ends
    obtain ⟨fewest, last, lesser, there, ends⟩ := (rest mid here).out ends
    exact ⟨fewest, last, by omega, ⟨mid, here, there⟩, ends⟩
  · rintro last t ⟨mid, here, there⟩ halts
    exact reaches.back here ((rest mid here).back there halts)

/-- What is reached from a middle place and state is reached from where these are. -/
theorem goesOn {middle more : Nat} {s' : σ}
    (reaches : m.Reaches program least start s middle (· = s'))
    (rest : m.Reaches program more middle s' stop result) :
    m.Reaches program (least + more) start s stop result := by
  -- There is one middle state, from which the rest is known to go on.
  have both : m.Reaches program (least + more) start s stop fun t => ∃ mid, mid = s' ∧ result t :=
    reaches.andThen fun mid same => same ▸ rest
  exact both.congr fun t => by simp

/-- A number of moves that is at least so great is at least any smaller one. -/
theorem weaken {fewer : Nat} (less : fewer ≤ least)
    (reaches : m.Reaches program least start s stop result) :
    m.Reaches program fewer start s stop result := by
  -- The number of moves is only a bound from below.
  refine ⟨fun ends => ?_, reaches.back⟩
  obtain ⟨left, mid, bound, here, ends⟩ := reaches.out ends
  exact ⟨left, mid, by omega, here, ends⟩

/-- One step of the machine before others. -/
theorem step {middle : Nat} {s' : σ} (stepped : m.step program start s = some (middle, s'))
    (rest : m.Reaches program least middle s' stop result) :
    m.Reaches program 1 start s stop result :=
  ((last stepped).goesOn rest).weaken (Nat.le_add_right ..)

/-- A conditional acts as a whole. -/
theorem whole {c : Conditional Stmt} (here : program[start]? = some (.conditional c)) :
    m.Reaches program 1 start s (start + 1) (m.effect (.conditional c) s) := by
  -- The same as for a step, but the state behind it need not be the only one.
  constructor
  · intro count t ends
    obtain ⟨fewer, mid, rfl, acts, ends⟩ := (m.ends_whole here).1 ends
    exact ⟨fewer, mid, Nat.le_refl _, acts, ends⟩
  · rintro mid t acts ⟨count, ends⟩
    exact ⟨count + 1, .next (.whole here acts) ends⟩

/-- Structured statements have their effects one after another. -/
theorem body {stmts : List Stmt} (structured : ∀ stmt ∈ stmts, stmt.Structured)
    (code : CodeAt program start stmts) (s : σ) :
    m.Reaches program 0 start s (start + stmts.length) (m.effectAll stmts s) := by
  -- An instruction takes one step; a conditional that still stands acts as a whole.
  induction stmts generalizing start s with
  | nil =>
    refine ⟨fun ends => ⟨_, s, Nat.le_refl _, rfl, ends⟩, ?_⟩
    rintro mid t rfl halts
    exact halts
  | cons stmt others ih =>
    obtain ⟨here, code⟩ := codeAt_cons.1 code
    rw [List.length_cons, Nat.add_comm others.length, ← Nat.add_assoc]
    have behind := ih (fun other within => structured other (List.mem_cons_of_mem _ within)) code
    cases structured stmt (List.mem_cons_self ..) with
    | instruction straight =>
      refine ((step (m.step_next here straight s) (behind _)).weaken (Nat.zero_le _)).congr
        fun t => ?_
      simp [effectAll, effects, effect, Effect.sequence]
    | conditional =>
      exact ((whole here).andThen fun mid _ => behind mid).weaken (Nat.zero_le _)

/-- A loop, once each round of it comes back to its head and each exit reaches the stop. -/
theorem loop (holds : σ → Bool) (round : Effect σ)
    (again : ∀ s, holds s = true → m.Reaches program 1 start s start (round s))
    (exit : ∀ s, holds s = false → m.Reaches program 1 start s stop (· = s)) :
    m.Reaches program 1 start s stop (Effect.Loop holds round s) := by
  -- Forwards the moves of a run are counted down; backwards it is built up from its rounds.
  constructor
  · -- Each round leaves fewer moves, so the rounds of a run that ends come to an end.
    intro count t ends
    induction count using Nat.strongRecOn generalizing s with
    | ind count ih =>
      cases decided : holds s with
      | true =>
        obtain ⟨fewer, mid, less, once, ends⟩ := (again s decided).out ends
        obtain ⟨fewest, last, lesser, rest, ends⟩ := ih fewer less ends
        exact ⟨fewest, last, by omega, .again decided once rest, ends⟩
      | false =>
        obtain ⟨fewer, mid, less, rfl, rest⟩ := (exit s decided).out ends
        exact ⟨fewer, mid, less, .leave decided, rest⟩
  -- Backwards, the rounds are put before the run one by one, the last one first.
  · intro last t looped halts
    induction looped with
    | leave fails => exact (exit _ fails).back rfl halts
    | again stays once _ ih => exact (again _ stays).back once (ih halts)

end Reaches

end Machine

end CrossAsm
