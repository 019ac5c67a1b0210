import CrossAsm.Proofs.Lowering.Forms
import Mathlib.Logic.Relation

/-! Lowering preserves meaning: a list of conditionals and instructions, lowered conditional by
conditional in any order, falls off its end exactly in the states its structure leads to. -/

namespace CrossAsm

/-- A name that a session has minted. -/
def Session.Minted (session : Session) (name : String) : Prop :=
  ∃ count < session.labels, name = Session.labelName count

/-- A list in which some conditionals are lowered already: names are minted, and none is bound
twice. -/
structure InProgress (stmts : List Stmt) (session : Session) : Prop where
  /-- Labels and targets are minted, and what is not lowered yet is structured. -/
  lowered : ∀ stmt ∈ stmts, stmt.Lowered session.Minted Stmt.Structured
  /-- No label is bound twice. -/
  distinct : (labelNames stmts).Nodup

/-- Structured statements are a list in which nothing is lowered yet. -/
theorem InProgress.ofStructured {stmts : List Stmt} (session : Session)
    (structured : ∀ stmt ∈ stmts, stmt.Structured) : InProgress stmts session := by
  -- Structured statements bind no label.
  refine ⟨fun stmt inside => .old (structured stmt inside), ?_⟩
  rw [labelNames_structured structured]
  exact List.nodup_nil

/-- A label of a list in progress is a minted one. -/
theorem InProgress.minted {stmts : List Stmt} {session : Session}
    (progress : InProgress stmts session) {name : String} (bound : name ∈ labelNames stmts) :
    session.Minted name := by
  -- Of the statements of such a list only labels bind a name, and theirs are minted.
  rw [labelNames, List.mem_filterMap] at bound
  obtain ⟨stmt, inside, named⟩ := bound
  cases progress.lowered stmt inside with
  | label minted =>
    cases named
    exact minted
  | goto => cases named
  | straight => cases named
  | old structured =>
    rw [structured.labelName?] at named
    cases named

/-! ### One conditional replaced by its code -/

section Replaced

/-- The place that a place of a list has, once a statement is replaced by code of another length. -/
def shifted (at_ length pc : Nat) : Nat :=
  if pc ≤ at_ then pc else pc + length - 1

variable {before code after : List Stmt} {c : Conditional Stmt}

/-- Statements around the replaced one are moved with their places. -/
theorem getElem?_shifted {pc : Nat} (other : pc ≠ before.length) :
    (before ++ code ++ after)[shifted before.length code.length pc]? =
      (before ++ .conditional c :: after)[pc]? := by
  -- A place stands before the conditional or behind it.
  unfold shifted
  split
  · -- Before the conditional, both lists are the same.
    have inside : pc < before.length := by omega
    rw [List.append_assoc, List.getElem?_append_left inside, List.getElem?_append_left inside]
  · -- Behind it, both lists go on with what follows.
    have outside : before.length + 1 ≤ pc := by omega
    rw [List.getElem?_append_right (by simp; omega), List.getElem?_append_right (by omega)]
    have offset : pc - before.length = (pc - before.length - 1) + 1 := by omega
    rw [offset, List.getElem?_cons_succ, List.length_append]
    congr 1
    omega

/-- A label that the code does not bind is moved with its place. -/
theorem labelIndex_shifted {name : String} (foreign : name ∉ labelNames code) :
    labelIndex (before ++ code ++ after) name =
      (labelIndex (before ++ .conditional c :: after) name).map
        (shifted before.length code.length) := by
  -- The code has no such label, and neither has the conditional.
  have nowhere : code.findIdx? (fun stmt => decide (stmt.labelName? = some name)) = none := by
    rw [List.findIdx?_eq_none_iff]
    intro stmt inside
    simp only [decide_eq_false_iff_not]
    intro named
    exact foreign (List.mem_filterMap.2 ⟨stmt, inside, named⟩)
  have silent : (Stmt.conditional c).labelName? = none := rfl
  simp only [labelIndex, List.findIdx?_append, List.findIdx?_cons, nowhere, silent]
  cases early : before.findIdx? (fun stmt => decide (stmt.labelName? = some name)) with
  | some place =>
    have inside : place < before.length := (List.findIdx?_eq_some_iff_getElem.1 early).1
    simp [shifted, Nat.le_of_lt inside]
  | none =>
    cases late : after.findIdx? (fun stmt => decide (stmt.labelName? = some name)) with
    | none => simp
    | some place =>
      have behind : ¬place + 1 + before.length ≤ before.length := by omega
      simp [shifted, behind]
      omega

variable {σ : Type} {m : Machine σ} {pc : Nat} {s : σ}

/-- The place behind a statement other than the replaced one is moved with it. -/
theorem shifted_succ {at_ length : Nat} (other : pc ≠ at_) :
    shifted at_ length (pc + 1) = shifted at_ length pc + 1 := by
  -- It lies either in front of the replaced one or behind it, and so does the next.
  unfold shifted
  split <;> split <;> omega

/-- Away from the replaced conditional the machine steps as before, between moved places. -/
theorem step_shifted {known : String → Prop}
    (foreign : ∀ name, known name → name ∉ labelNames code)
    (lowered : ∀ stmt ∈ before ++ .conditional c :: after, stmt.Lowered known Stmt.Structured)
    {pc : Nat} (other : pc ≠ before.length) (s : σ) :
    m.step (before ++ code ++ after) (shifted before.length code.length pc) s =
      (m.step (before ++ .conditional c :: after) pc s).map fun (place, state) =>
        (shifted before.length code.length place, state) := by
  -- The same statement stands at the moved place.
  unfold Machine.step
  rw [getElem?_shifted (c := c) other]
  cases here : (before ++ .conditional c :: after)[pc]? with
  | none => rfl
  | some stmt =>
    -- Only a branch looks at a label, and the labels that branches go to are known.
    cases lowered stmt (List.mem_of_getElem? here) with
    | label => simp [shifted_succ other]
    | straight straight => simp [straight, shifted_succ other]
    | old structured =>
      cases structured with
      | instruction straight => simp [straight, shifted_succ other]
      | conditional => rfl
    | @goto line bound =>
      -- The label that a branch goes to is moved as all places are.
      have moved : Machine.goal (before ++ code ++ after) line =
          (Machine.goal (before ++ .conditional c :: after) line).map
            (shifted before.length code.length) := by
        unfold Machine.goal
        cases target : line.target? with
        | none => rfl
        | some name => exact labelIndex_shifted (foreign name (bound name target))
      simp only [moved]
      -- By what the operation does to control.
      cases line.op.flow with
      | next => simp [shifted_succ other]
      | branch flag state =>
        by_cases taken : m.flag flag s = state
        · simp [taken, Option.map_map, Function.comp_def]
        · simp [taken, shifted_succ other]
      | jump => simp [Option.map_map, Function.comp_def]
      | away => rfl

/-- The place of the replaced conditional is where its code starts. -/
theorem shifted_self (at_ length : Nat) : shifted at_ length at_ = at_ := by
  -- It is not behind the replaced conditional.
  simp [shifted]

/-- The place behind the replaced conditional is the one behind its code. -/
theorem shifted_next (at_ length : Nat) : shifted at_ length (at_ + 1) = at_ + length := by
  -- It is the first place that is moved.
  unfold shifted
  split <;> omega

/-- The end of the list is moved to the end of the new one. -/
theorem shifted_end : shifted before.length code.length (before ++ .conditional c :: after).length =
    (before ++ code ++ after).length := by
  -- It is behind the conditional, by as much as there is code behind it.
  simp only [shifted, List.length_append, List.length_cons]
  split <;> omega

/-- Different places are moved to different places. -/
theorem shifted_inj {at_ length p q : Nat} (positive : 0 < length) :
    shifted at_ length p = shifted at_ length q ↔ p = q := by
  -- The code is not empty, so that what is moved stays behind what is not.
  unfold shifted
  split <;> split <;> omega

section Runs

variable (acts : ∀ s, m.Reaches (before ++ code ++ after) 1 before.length s
    (before.length + code.length) (m.effect (.conditional c) s))
  (steps : ∀ {pc : Nat}, pc ≠ before.length → ∀ s,
    m.step (before ++ code ++ after) (shifted before.length code.length pc) s =
      (m.step (before ++ .conditional c :: after) pc s).map fun (place, state) =>
        (shifted before.length code.length place, state))

include acts steps

/-- A run with the conditional is one with its code. -/
theorem halts_of_ends {count : Nat} {t : σ}
    (ends : m.Ends (before ++ .conditional c :: after) count pc s t) :
    m.Halts (before ++ code ++ after) (shifted before.length code.length pc) s t := by
  -- The induction is on the run, move by move.
  induction ends with
  -- At the end nothing is left to move.
  | done s => exact ⟨0, shifted_end (c := c) ▸ .done s⟩
  | @next _ pc _ s _ _ moved _ ih =>
    by_cases here : pc = before.length
    · -- The conditional acts as a whole, and its code has the same effect.
      subst here
      cases moved with
      | step stepped => simp [Machine.step] at stepped
      | @whole other _ _ found effect =>
        have same : c = other := by simpa using found
        subst same
        rw [shifted_next] at ih
        rw [shifted_self]
        exact (acts s).back effect ih
    · -- Elsewhere the same statement stands in the moved place.
      obtain ⟨count, ends⟩ := ih
      -- A move of the machine is one, and a conditional elsewhere acts as a whole.
      cases moved with
      | step stepped =>
        have moves := steps here s
        rw [stepped] at moves
        exact ⟨count + 1, .next (.step moves) ends⟩
      | whole found effect =>
        rw [shifted_succ here] at ends
        exact ⟨count + 1, .next (.whole ((getElem?_shifted here).trans found) effect) ends⟩

/-- A run with the code of a conditional is one with the conditional. -/
theorem halts_of_ends_shifted (positive : 0 < code.length) {count : Nat} {t : σ}
    (ends : m.Ends (before ++ code ++ after) count (shifted before.length code.length pc) s t) :
    m.Halts (before ++ .conditional c :: after) pc s t := by
  -- Going through the code takes moves, so fewer are left behind it.
  induction count using Nat.strongRecOn generalizing pc s with
  | ind count ih =>
    by_cases here : pc = before.length
    · -- At the conditional its code is gone through to the end, which is one move of the
      -- conditional.
      subst here
      rw [shifted_self] at ends
      obtain ⟨fewer, mid, less, effect, ends⟩ := (acts s).out ends
      rw [← shifted_next] at ends
      obtain ⟨left, rest⟩ := ih fewer less ends
      exact ⟨left + 1, .next (.whole (by simp) effect) rest⟩
    · -- Elsewhere every move is one from the place that is moved there.
      generalize moveEq : shifted before.length code.length pc = place at ends
      cases ends with
      | done =>
        rw [← shifted_end (c := c), shifted_inj positive] at moveEq
        exact ⟨0, moveEq ▸ .done _⟩
      | next moved rest =>
        subst moveEq
        -- A move of the machine, or of another conditional as a whole.
        cases moved with
        | step stepped =>
          rw [steps here, Option.map_eq_some_iff] at stepped
          obtain ⟨⟨place, state⟩, stepped, same⟩ := stepped
          cases same
          obtain ⟨left, rest⟩ := ih _ (Nat.lt_succ_self _) rest
          exact ⟨left + 1, .next (.step stepped) rest⟩
        | whole found effect =>
          rw [getElem?_shifted (c := c) here] at found
          rw [← shifted_succ here] at rest
          obtain ⟨left, rest⟩ := ih _ (Nat.lt_succ_self _) rest
          exact ⟨left + 1, .next (.whole found effect) rest⟩

end Runs

end Replaced

/-! ### From one list in progress to the next -/

namespace InProgress

variable {stmts stmts' before after code : List Stmt} {c : Conditional Stmt}
  {session session' : Session} {names : List String}

/-- A conditional that still stands is well formed and holds structured statements. -/
theorem structured (progress : InProgress (before ++ .conditional c :: after) session) :
    c.WellFormed ∧ ∀ block ∈ c.blocks, ∀ stmt ∈ block.body, stmt.Structured := by
  -- A conditional is neither a label nor an instruction, so it is one that was there before.
  have stands : .conditional c ∈ before ++ .conditional c :: after := by simp
  cases progress.lowered _ stands with
  | old structured =>
    cases structured with
    | conditional formed inside => exact ⟨formed, inside⟩

/-- Names minted before are still minted, and the new ones are too. -/
theorem minted_of_mints {name : String} (minted : session.Mints names session')
    (known : session.Minted name ∨ name ∈ names) : session'.Minted name := by
  -- The count has only gone up.
  rcases known with ⟨count, less, rfl⟩ | new
  · refine ⟨count, ?_, rfl⟩
    rw [minted.counted]
    omega
  · obtain ⟨count, -, less, rfl⟩ := minted.mem new
    exact ⟨count, less, rfl⟩

/-- A name minted before is none of the new ones. -/
theorem not_mem_of_minted {name : String} (minted : session.Mints names session')
    (known : session.Minted name) : name ∉ names := by
  -- Old names have smaller counts than new ones, and a name tells its count.
  intro new
  obtain ⟨count, less, rfl⟩ := known
  obtain ⟨other, least, -, same⟩ := minted.mem new
  rw [Session.labelName_inj] at same
  omega

/-- With a conditional replaced by its code, a list is still in progress. -/
theorem replace (progress : InProgress (before ++ .conditional c :: after) session)
    (lowered : LoweredTo c names code) (minted : session.Mints names session') :
    InProgress (before ++ code ++ after) session' := by
  -- The labels of the code are new, those of its bodies were there before.
  have inside := progress.structured.2
  have permuted := lowered.labelNames inside
  constructor
  · -- Old statements go to old labels, and the code to new ones.
    have old : ∀ stmt ∈ before ++ .conditional c :: after,
        stmt.Lowered session'.Minted Stmt.Structured := fun stmt within =>
      (progress.lowered stmt within).mono fun name known => minted_of_mints minted (.inl known)
    have new : ∀ stmt ∈ code, stmt.Lowered session'.Minted Stmt.Structured := fun stmt within =>
      (lowered.lowered inside stmt within).mono fun name new => minted_of_mints minted (.inr new)
    simp only [List.forall_mem_append, List.forall_mem_cons] at old ⊢
    exact ⟨⟨old.1, new⟩, old.2.2⟩
  · -- Old labels are minted before the new ones, so the two are different.
    have distinct := progress.distinct
    have known : ∀ name ∈ labelNames (before ++ .conditional c :: after), name ∉ names :=
      fun name bound => not_mem_of_minted minted (progress.minted bound)
    -- The labels of the code stand where the conditional was.
    have moved : (labelNames (before ++ code ++ after)).Perm
        (names ++ labelNames (before ++ .conditional c :: after)) := by
      have around : labelNames (before ++ .conditional c :: after) =
          labelNames before ++ labelNames after := by
        simp [Stmt.labelName?]
      rw [around, labelNames_append, labelNames_append, ← List.append_assoc]
      exact (List.perm_append_comm.trans (permuted.append_right _)).append_right _
    rw [moved.nodup_iff, List.nodup_append]
    refine ⟨minted.nodup, distinct, ?_⟩
    rintro new within old bound rfl
    exact known new bound within

/-- With a conditional replaced by its code, the same runs end in the same states. -/
theorem halts_replace {σ : Type} {m : Machine σ}
    (progress : InProgress (before ++ .conditional c :: after) session)
    (lowered : LoweredTo c names code) (minted : session.Mints names session') (s t : σ) :
    m.Halts (before ++ code ++ after) 0 s t ↔
      m.Halts (before ++ .conditional c :: after) 0 s t := by
  -- The code acts as the conditional does, and all other places are only moved.
  have inside := progress.structured.2
  have distinct := (progress.replace lowered minted).distinct
  have acts := lowered.reaches (m := m) inside distinct (codeAt_middle before code after)
  -- The code binds new names only, and everything else goes to old ones.
  have foreign : ∀ name, session.Minted name → name ∉ labelNames code := fun name known bound =>
    not_mem_of_minted minted known ((lowered.labelNames inside).mem_iff.1 bound)
  have steps : ∀ {pc : Nat}, pc ≠ before.length → ∀ s : σ, _ :=
    step_shifted (m := m) foreign progress.lowered
  have start : shifted before.length code.length 0 = 0 := by simp [shifted]
  constructor
  · rintro ⟨count, ends⟩
    rw [← start] at ends
    exact halts_of_ends_shifted acts steps lowered.length_pos ends
  · rintro ⟨count, ends⟩
    rw [← start]
    exact halts_of_ends acts steps ends

/-- What lowering one conditional does to a list in progress: the conditional is well formed, so its
code is the one that its form has. -/
theorem lowersOne_cases (progress : InProgress stmts session)
    (lowers : LowersOne (stmts, session) (stmts', session')) :
    ∃ before c after code names, stmts = before ++ .conditional c :: after ∧
      stmts' = before ++ code ++ after ∧ LoweredTo c names code ∧
      session.Mints names session' := by
  -- Lowering has one result, and that of a well-formed conditional is known.
  cases lowers with
  | @lower before after code c _ _ ran =>
    obtain ⟨code, session', names, same, lowered, minted⟩ :=
      lowering_run progress.structured.1 session
    cases ran.symm.trans same
    exact ⟨before, c, after, code, names, rfl, rfl, lowered, minted⟩

open Relation (ReflTransGen)

variable {later : List Stmt × Session}

/-- Lowering any number of conditionals keeps a list in progress. -/
theorem lowers (progress : InProgress stmts session)
    (lowers : ReflTransGen LowersOne (stmts, session) later) : InProgress later.1 later.2 := by
  -- Each step replaces one conditional by its code.
  induction lowers with
  | refl => exact progress
  | tail _ last ih =>
    obtain ⟨before, c, after, code, names, old, new, lowered, minted⟩ := ih.lowersOne_cases last
    rw [old] at ih
    rw [new]
    exact ih.replace lowered minted

/-- Lowering any number of conditionals keeps the runs of a list in progress. -/
theorem halts_lowers {σ : Type} {m : Machine σ} (progress : InProgress stmts session)
    (lowers : ReflTransGen LowersOne (stmts, session) later) (s t : σ) :
    m.Halts later.1 0 s t ↔ m.Halts stmts 0 s t := by
  -- The list before each step is still in progress, so the step keeps its runs.
  induction lowers with
  | refl => rfl
  | tail earlier last ih =>
    have middle := progress.lowers earlier
    obtain ⟨before, c, after, code, names, old, new, lowered, minted⟩ :=
      middle.lowersOne_cases last
    rw [old] at middle ih
    rw [new, ← ih]
    exact middle.halts_replace lowered minted s t

end InProgress

/-! ### From structured statements to a flat list -/

section Ends

variable {σ : Type} {m : Machine σ} {stmts : List Stmt}

/-- From the end of a list no move leads on. -/
theorem eq_of_halts_end {s t : σ} (halts : m.Halts stmts stmts.length s t) : s = t := by
  -- Behind the last statement there is none to move from.
  obtain ⟨count, ends⟩ := halts
  generalize atEnd : stmts.length = pc at ends
  cases ends with
  | done => rfl
  | next moved =>
    subst atEnd
    cases moved with
    | step stepped => simp [Machine.step] at stepped
    | whole here => simp at here

/-- A list of structured statements ends in the states that its structure leads to. -/
theorem halts_structured (structured : ∀ stmt ∈ stmts, stmt.Structured) (s t : σ) :
    m.Halts stmts 0 s t ↔ m.effectAll stmts s t := by
  -- The list is a body that stands in itself, and a run that has come to its end stops there.
  have placed : CodeAt stmts 0 stmts := by simpa using codeAt_middle [] stmts []
  have reaches := Machine.Reaches.body (m := m) structured placed s
  rw [Nat.zero_add] at reaches
  constructor
  · rintro ⟨count, ends⟩
    obtain ⟨fewer, mid, -, acts, ends⟩ := reaches.out ends
    rwa [← eq_of_halts_end ⟨fewer, ends⟩]
  · intro acts
    exact reaches.back acts ⟨0, .done t⟩

/-- A list without conditionals ends where the machine falls off it. -/
theorem halts_flat (flat : Flat stmts) (pc : Nat) (s t : σ) :
    m.Halts stmts pc s t ↔ m.FallsOff stmts pc s t := by
  -- Without conditionals every move is a step of the machine.
  constructor
  · rintro ⟨count, ends⟩
    induction ends with
    | done s => exact .done s
    | next moved _ ih =>
      cases moved with
      | step stepped => exact .next stepped ih
      | whole here => exact absurd (List.mem_of_getElem? here) (flat _)
  · intro falls
    induction falls with
    | done s => exact ⟨0, .done s⟩
    | next stepped _ ih =>
      obtain ⟨count, ends⟩ := ih
      exact ⟨count + 1, .next (.step stepped) ends⟩

end Ends

section Exists

open Relation (ReflTransGen)

/-- Statements of a list in progress can be lowered on until no conditional is left of them. -/
def Clears (stmts : List Stmt) : Prop :=
  ∀ {before after : List Stmt} {session : Session},
    InProgress (before ++ stmts ++ after) session →
    ∃ code session', Flat code ∧
      ReflTransGen LowersOne (before ++ stmts ++ after, session) (before ++ code ++ after, session')

/-- A statement that is no conditional is cleared already. -/
theorem clears_item (item : Item) : Clears [.item item] := by
  -- No code is put in its place, and no label is minted.
  intro before after session _
  exact ⟨_, session, by simp [Flat], .refl⟩

/-- Statements are cleared one after another. -/
theorem clears_of_forall {stmts : List Stmt} (each : ∀ stmt ∈ stmts, Clears [stmt]) :
    Clears stmts := by
  -- By induction on the statements, with the code of those before in front.
  induction stmts with
  | nil =>
    intro before after session _
    exact ⟨[], session, by simp [Flat], .refl⟩
  | cons stmt others ih =>
    intro before after session progress
    -- The first statement is cleared with the others behind it, then these with its code before.
    have first : InProgress (before ++ [stmt] ++ (others ++ after)) session := by
      simpa using progress
    obtain ⟨code, middle, flat, lowers⟩ := each stmt (List.mem_cons_self ..) first
    have second : InProgress ((before ++ code) ++ others ++ after) middle := by
      simpa using first.lowers lowers
    obtain ⟨rest, last, flatRest, lowersRest⟩ :=
      ih (fun other within => each other (List.mem_cons_of_mem _ within)) second
    refine ⟨code ++ rest, last, ?_, ?_⟩
    · simpa [Flat, not_or, forall_and] using ⟨flat, flatRest⟩
    · simp only [List.append_assoc, List.cons_append, List.nil_append] at lowers lowersRest ⊢
      exact lowers.trans lowersRest

/-- A structured statement can be cleared. -/
theorem Stmt.Structured.clears {stmt : Stmt} (structured : stmt.Structured) : Clears [stmt] := by
  -- By induction on the statement: the bodies of a conditional can be cleared.
  induction structured with
  | instruction => exact clears_item _
  | @conditional c formed inside ih =>
    intro before after session progress
    obtain ⟨code, middle, names, ran, lowered, minted⟩ := lowering_run formed session
    -- The code holds the statements of the blocks, which can be cleared, and flat ones.
    have each : ∀ stmt ∈ code, Clears [stmt] := by
      intro stmt within
      cases lowered.lowered ih stmt within with
      | old clears => exact clears
      | label | goto | straight => exact clears_item _
    rw [List.append_assoc, List.singleton_append] at progress
    obtain ⟨flat, last, isFlat, lowers⟩ := clears_of_forall each (progress.replace lowered minted)
    refine ⟨flat, last, isFlat, .head ?_ lowers⟩
    rw [List.append_assoc, List.singleton_append]
    exact .lower ran

/-- A list in progress can be lowered on until it is flat. -/
theorem InProgress.clears {stmts : List Stmt} {session : Session}
    (progress : InProgress stmts session) :
    ∃ flat session', ReflTransGen LowersOne (stmts, session) (flat, session') ∧ Flat flat := by
  -- What is lowered is flat, and what is not is structured.
  have each : ∀ stmt ∈ stmts, Clears [stmt] := by
    intro stmt within
    cases progress.lowered stmt within with
    | old structured => exact structured.clears
    | label | goto | straight => exact clears_item _
  have whole : InProgress ([] ++ stmts ++ []) session := by simpa using progress
  obtain ⟨flat, session', isFlat, lowers⟩ := clears_of_forall each whole
  simp only [List.nil_append, List.append_nil] at lowers
  exact ⟨flat, session', lowers, isFlat⟩

/-- Lowering preserves meaning. However far a list of structured statements is lowered, it can be
lowered on until it is flat; and from whatever flat list that gives, the machine falls off the end in
exactly the states that the structure leads to. -/
theorem fallsOff_iff_effectAll {σ : Type} (m : Machine σ) (session : Session) {stmts : List Stmt}
    (structured : ∀ stmt ∈ stmts, stmt.Structured) :
    (∀ part session', ReflTransGen LowersOne (stmts, session) (part, session') →
      ∃ flat last, ReflTransGen LowersOne (part, session') (flat, last) ∧ Flat flat) ∧
    ∀ flat last, ReflTransGen LowersOne (stmts, session) (flat, last) → Flat flat →
      ∀ s t, m.FallsOff flat 0 s t ↔ m.effectAll stmts s t := by
  -- Runs in which conditionals act as a whole connect the two: each lowering keeps them.
  have start := InProgress.ofStructured session structured
  constructor
  · intro part session' lowers
    exact (start.lowers lowers).clears
  · intro flat last lowers isFlat s t
    calc m.FallsOff flat 0 s t
      _ ↔ m.Halts flat 0 s t := (halts_flat isFlat 0 s t).symm
      _ ↔ m.Halts stmts 0 s t := start.halts_lowers lowers s t
      _ ↔ m.effectAll stmts s t := halts_structured structured s t

/-- A machine whose registers are one counter, which a compare leaves alone and everything else
counts down. -/
def counter : Machine (UInt8 × Bool) where
  flag _ s := s.2
  register _ s := s.1
  value e := e.number?.getD 0
  exec line s :=
    match line.operand with
    | .immediate e => (s.1, decide (s.1 = lowByte (e.number?.getD 0).toInt))
    | _ => (s.1 - 1, decide (s.1 - 1 = 0))
  compare_zero _ _ _ _ := rfl

/-- A loop around a switch, both of whose blocks count down. -/
def countdown : Stmt :=
  let down : Stmt := .item (.instruction (.unresolved .dex .none .global default))
  let one : Block Stmt := { clause := ⟨.caseOf (.number 1), default⟩, body := [down] }
  let many : Block Stmt := { clause := ⟨.byDefault, default⟩, body := [down] }
  .conditional {
    form := .whileLoop
    first := {
      clause := ⟨.whileTest ⟨.far, .not, .zero⟩, default⟩
      body := [.conditional {
        form := .switchDefault
        first := { clause := ⟨.switchOn .x, default⟩ }
        others := [one, many]
        ns := .global }] }
    ns := .global }

/-- The loop is structured, and what it is lowered to counts one down to zero. -/
theorem countdown_fallsOff :
    countdown.Structured ∧
    ∃ flat last, ReflTransGen LowersOne ([countdown], { cpu := .nmos }) (flat, last) ∧ Flat flat ∧
      counter.FallsOff flat 0 (1, false) (0, true) := by
  -- The loop has a switch in its body, so that it is lowered in two steps.
  have structured : countdown.Structured := by
    refine .conditional (by simp [Conditional.WellFormed]) ?_
    simp only [Conditional.blocks, List.forall_mem_singleton]
    refine .conditional (by simp [Conditional.WellFormed]) ?_
    simp only [Conditional.blocks, List.forall_mem_cons, List.not_mem_nil, false_imp_iff,
      implies_true, and_true, true_and]
    exact ⟨.instruction rfl, .instruction rfl⟩
  have meaning := fallsOff_iff_effectAll counter { cpu := .nmos }
    (List.forall_mem_singleton.2 structured)
  obtain ⟨flat, last, lowers, isFlat⟩ := meaning.1 _ _ .refl
  refine ⟨structured, flat, last, lowers, isFlat, (meaning.2 flat last lowers isFlat _ _).2 ?_⟩
  -- One round: the switch finds the counter at one, and counts down.
  refine ⟨_, ⟨_, rfl, .again rfl ⟨_, ⟨.x, rfl, ?_⟩, rfl⟩ (.leave rfl)⟩, rfl⟩
  exact ⟨_, rfl, rfl⟩

end Exists

end CrossAsm
