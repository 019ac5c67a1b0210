import CrossAsm.Nesting.Step

/-! Reading a statement leaves less to read, though a step may put a mark back: a clause weighs more
than the marks that its block can put back. -/

namespace CrossAsm

namespace Nesting

/-- From a state, a step leaves no more to read than a limit. -/
def Within {α : Type} (s : Nesting) (limit : Nat) (m : NestingStep α) : Prop :=
  ∀ a s', m s = .ok a s' → s'.weight ≤ limit

/-- A step that adds nothing to what is left to read. -/
def Light {α : Type} (m : NestingStep α) : Prop :=
  ∀ s limit, s.weight ≤ limit → Within s limit m

/-- A step that leaves the statements to be read and the containers alone. -/
def Quiet {α : Type} (m : NestingStep α) : Prop :=
  ∀ s a s', m s = .ok a s' → s'.queue = s.queue ∧ s'.frames = s.frames

namespace Within

variable {α β : Type} {s : Nesting} {limit : Nat}

/-- Ending leaves what there was. -/
theorem done {a : α} (bound : s.weight ≤ limit) : Within s limit (pure a : NestingStep α) := by
  intro a' s' ok
  cases ok
  exact bound

/-- A failure leaves nothing. -/
theorem fail {e : Error} : Within s limit (throw e : NestingStep α) := by
  intro a' s' ok
  cases ok

/-- Looking at the state leaves it as it is. -/
theorem read {f : Nesting → NestingStep α} (within : Within s limit (f s)) :
    Within s limit ((get : NestingStep Nesting) >>= f) :=
  within

/-- A change of the state leaves the weight of the new one. -/
theorem change {f : Nesting → Nesting} (bound : (f s).weight ≤ limit) :
    Within s limit (modify f : NestingStep PUnit) := by
  intro a s' ok
  cases ok
  exact bound

/-- What follows a change starts from the new state. -/
theorem changeThen {f : Nesting → Nesting} {k : PUnit → NestingStep α}
    (within : Within (f s) limit (k ())) :
    Within s limit ((modify f : NestingStep PUnit) >>= k) :=
  within

/-- What follows a quiet step starts from a state with as much left to read. -/
theorem quietThen {m : NestingStep β} {k : β → NestingStep α} (quiet : Quiet m)
    (within : ∀ b s', s'.queue = s.queue → s'.frames = s.frames → Within s' limit (k b)) :
    Within s limit (m >>= k) := by
  intro a s' ok
  simp only [Bind.bind, EStateM.bind] at ok
  split at ok
  · rename_i b mid passed
    obtain ⟨sameQueue, sameFrames⟩ := quiet s b mid passed
    exact within b mid sameQueue sameFrames a s' ok
  · contradiction

/-- What follows a light step starts from a state with no more left to read. -/
theorem lightThen {m : NestingStep β} {k : β → NestingStep α} (light : Light m)
    (rest : ∀ b, Light (k b)) (bound : s.weight ≤ limit) : Within s limit (m >>= k) := by
  intro a s' ok
  simp only [Bind.bind, EStateM.bind] at ok
  split at ok
  · rename_i b mid passed
    exact rest b mid limit (light s limit bound b mid passed) a s' ok
  · contradiction

end Within

/-- A quiet step adds nothing. -/
theorem Quiet.light {α : Type} {m : NestingStep α} (quiet : Quiet m) : Light m := by
  intro s limit bound a s' ok
  obtain ⟨sameQueue, sameFrames⟩ := quiet s a s' ok
  simpa [weight, sameQueue, sameFrames] using bound

/-- Scopes are no part of what is left to read. -/
theorem modifyScopes_quiet (f : ScopeTable → ScopeTable) : Quiet (modifyScopes f) := by
  intro s a s' ok
  cases ok
  exact ⟨rfl, rfl⟩

/-- A step that looks at the state and goes on quietly is quiet. -/
theorem Quiet.read {α : Type} {f : Nesting → NestingStep α} (quiet : ∀ s, Quiet (f s)) :
    Quiet ((get : NestingStep Nesting) >>= f) :=
  fun s a s' ok => quiet s s a s' ok

/-- Ending is quiet. -/
theorem Quiet.done {α : Type} (a : α) : Quiet (pure a : NestingStep α) := by
  intro s a' s' ok
  cases ok
  exact ⟨rfl, rfl⟩

/-- A failure is quiet. -/
theorem Quiet.fail {α : Type} (e : Error) : Quiet (throw e : NestingStep α) := by
  intro s a' s' ok
  cases ok

/-- Leaving a scope is quiet. -/
theorem popScope_quiet : Quiet popScope := by
  refine Quiet.read fun state => ?_
  split
  · exact modifyScopes_quiet _
  · exact Quiet.fail _

/-- Asking for the namespace is quiet. -/
theorem currentNs_quiet : Quiet currentNs :=
  Quiet.read fun _ => Quiet.done _

/-- Claiming a name is quiet. -/
theorem claimGlobal_quiet (symbol : Symbol) (pos : Pos) : Quiet (claimGlobal symbol pos) := by
  refine Quiet.read fun state => ?_
  split
  · split
    · exact Quiet.fail _
    · exact Quiet.done _
  · exact Quiet.done _

/-- Claiming a name in a namespace is quiet. -/
theorem claimIn_quiet (ns : Namespace) (symbol : Symbol) (pos : Pos) :
    Quiet (claimIn ns symbol pos) := by
  unfold claimIn
  split
  · exact claimGlobal_quiet _ _
  · exact Quiet.done _

/-- A check is quiet. -/
theorem checkClosed_quiet : Quiet checkClosed := by
  refine Quiet.read fun state => ?_
  dsimp only
  split
  · exact Quiet.fail _
  · exact Quiet.fail _
  · exact Quiet.done _

/-- A finished statement is not read again. -/
theorem emit_light (stmt : Stmt) : Light (emit stmt) := by
  -- Only the contents of the innermost container change.
  intro s limit bound
  apply Within.read
  split
  · rename_i framed
    apply Within.change
    simpa [weight, framed, Frame.waiting] using bound
  · rename_i framed
    split
    · exact Within.fail
    · apply Within.change
      simpa [weight, framed, Frame.waiting] using bound
  · exact Within.change bound

/-- The mark that is put back weighs less than the container that waited for it. -/
theorem cascade_light (pos : Pos) : Light (cascade pos) := by
  -- A container that waits for a mark weighs two, the mark one.
  intro s limit bound
  apply Within.read
  split
  · rename_i framed
    apply Within.changeThen
    apply Within.change
    simp [weight, framed, Frame.waiting, readingWeight] at bound ⊢
    omega
  · exact Within.done bound

/-- A function takes the mark that opens it. -/
theorem openFunction_light (decl : FunctionDecl) : Light (openFunction decl) := by
  -- The mark is gone from the queue, and a function waits for none.
  intro s limit bound
  apply Within.read
  split
  · exact Within.fail
  · split
    · rename_i queued
      apply Within.changeThen
      apply Within.changeThen
      apply Within.change
      simp [weight, queued, Frame.waiting] at bound ⊢
      omega
    · exact Within.fail

/-- The queue behind a clause grows by one mark, or is read on as the only child. -/
theorem openQueue_weight {pos : Pos} {queue after : List Stmt} {childOnly : Bool}
    (opened : openQueue pos queue = some (after, childOnly)) :
    total (after.map readingWeight) + 2 * childOnly.toNat ≤
      total (queue.map readingWeight) + 2 := by
  -- Each form is read off; at most one mark is put in.
  unfold openQueue at opened
  split at opened
  · cases opened
    simp
    omega
  · split at opened <;> cases opened
    simp
  · cases opened
    simp [readingWeight]
    omega
  · split at opened <;> cases opened
    simp [readingWeight]
    omega
  · cases opened

/-- Opening a block adds less than the clause that opens it weighs. -/
theorem openBlock_within (cond : Conditional Stmt) (oneLine : Bool) (outer : List Frame)
    (s : Nesting) (limit : Nat)
    (bound : total (s.queue.map readingWeight) +
      2 * (oneLine.toNat + total (outer.map Frame.waiting)) + 2 ≤ limit) :
    Within s limit (openBlock cond oneLine outer) := by
  -- What the queue gains is bounded, and the container waits for at most one mark.
  refine Within.quietThen (modifyScopes_quiet _) fun _ s' sameQueue _ => ?_
  apply Within.read
  dsimp only
  split
  · rename_i opened
    have grown := openQueue_weight opened
    rw [sameQueue] at grown
    apply Within.changeThen
    apply Within.change
    cases oneLine <;> rename_i child _ <;> cases child <;>
      simp [weight, Frame.waiting] at grown bound ⊢ <;> omega
  · exact Within.fail

/-- Reading a clause adds less than it weighs. -/
theorem openClause_within (clause : Clause) (s : Nesting) :
    Within s (s.weight + 3) (openClause clause) := by
  -- Each kind of clause opens a block over frames that wait as before.
  apply Within.read
  dsimp only
  split
  · split
    · rename_i framed
      split
      · apply openBlock_within
        simp [weight, framed, Frame.waiting]
      · exact Within.fail
    · exact Within.fail
  · split
    · split
      · apply openBlock_within
        simp [weight]
      · exact Within.fail
    · exact Within.fail
  · split
    · rename_i framed
      split
      · split
        · exact Within.fail
        · apply openBlock_within
          simp [weight, framed, Frame.waiting]
      · exact Within.fail
    · exact Within.fail
  · apply openBlock_within
    simp [weight]

/-- Counting a block adds nothing. -/
theorem deepen_light (pos : Pos) : Light (deepen pos) := by
  -- A depth is no part of the weight.
  intro s limit bound
  apply Within.read
  split
  · rename_i framed
    apply Within.change
    simpa [weight, framed, Frame.waiting] using bound
  · rename_i framed
    apply Within.change
    simpa [weight, framed, Frame.waiting] using bound
  · exact Within.change bound

/-- Steps one after another are light if each of them is. -/
theorem Light.andThen {α β : Type} {m : NestingStep β} {k : β → NestingStep α} (light : Light m)
    (rest : ∀ b, Light (k b)) : Light (m >>= k) :=
  fun _ _ bound => Within.lightThen light rest bound

/-- Opening a block that no clause governs adds nothing. -/
theorem openBare_light (pos : Pos) : Light (openBare pos) :=
  (deepen_light pos).andThen fun _ => (modifyScopes_quiet _).light.andThen fun _ => emit_light _

/-- Finishing a function adds nothing. -/
theorem finishFunction_light (func : Function Stmt) (pos : Pos) :
    Light (finishFunction func pos) :=
  (claimGlobal_quiet _ _).light.andThen fun _ =>
    (modifyScopes_quiet _).light.andThen fun _ =>
      (emit_light _).andThen fun _ => cascade_light pos

/-- Finishing a conditional adds nothing. -/
theorem finishConditional_light (cond : Conditional Stmt) (pos : Pos) :
    Light (finishConditional cond pos) :=
  (emit_light _).andThen fun _ => cascade_light pos

/-- Handing a case to its switch adds nothing. -/
theorem attachCase_light (cond : Conditional Stmt) (pos : Pos) : Light (attachCase cond pos) := by
  -- The switch waits as before, and the cascade is light.
  intro s limit bound
  unfold attachCase
  split
  · exact Within.fail
  · apply Within.read
    split
    · rename_i framed
      apply Within.changeThen
      apply cascade_light
      simpa [weight, framed, Frame.waiting] using bound
    · exact Within.fail

/-- Closing a conditional adds nothing to what its container could put back. -/
theorem closeConditional_within (cond : Conditional Stmt) (oneLine : Bool) (outer : List Frame)
    (pos : Pos) (s : Nesting) (limit : Nat)
    (bound : total (s.queue.map readingWeight) +
      2 * (oneLine.toNat + total (outer.map Frame.waiting)) ≤ limit) :
    Within s limit (closeConditional cond oneLine outer pos) := by
  -- The frame is put back as it was, or dropped with what it waited for.
  apply Within.read
  dsimp only
  split
  · apply Within.change
    simpa [weight, Frame.waiting] using bound
  · rename_i queued
    apply Within.changeThen
    apply Within.changeThen
    apply finishConditional_light
    simp [weight, queued] at bound ⊢
    omega
  · exact Within.fail
  · apply Within.changeThen
    apply attachCase_light
    simp [weight] at bound ⊢
    omega
  · apply Within.changeThen
    apply attachCase_light
    simp [weight] at bound ⊢
    omega
  · apply Within.changeThen
    apply finishConditional_light
    simp [weight] at bound ⊢
    omega

/-- Closing a block adds nothing. -/
theorem close_light (pos : Pos) : Light (close pos) := by
  -- Leaving the scope is quiet; what follows works on the same frames.
  intro s limit bound
  apply Within.read
  split
  · split
    · exact Within.fail
    · apply Within.changeThen
      apply Within.lightThen popScope_quiet.light (fun _ => emit_light _)
      exact bound
  · rename_i framed
    refine Within.quietThen popScope_quiet fun _ s' sameQueue sameFrames => ?_
    split
    · apply Within.changeThen
      apply emit_light
      simpa [weight, sameQueue, framed, Frame.waiting] using bound
    · apply Within.changeThen
      apply finishFunction_light
      simpa [weight, sameQueue, framed, Frame.waiting] using bound
  · rename_i framed
    refine Within.quietThen popScope_quiet fun _ s' sameQueue sameFrames => ?_
    dsimp only
    split
    · apply Within.changeThen
      apply emit_light
      simpa [weight, sameQueue, framed, Frame.waiting] using bound
    · apply closeConditional_within
      simpa [weight, sameQueue, framed, Frame.waiting] using bound

/-- Declaring a variable adds nothing. -/
theorem declareVariable_light (var : Variable) : Light (declareVariable var) :=
  currentNs_quiet.light.andThen fun _ =>
    (claimIn_quiet _ _ _).light.andThen fun _ =>
      (modifyScopes_quiet _).light.andThen fun _ => emit_light _

/-- A variable takes its initializer. -/
theorem addVariable_light (var : Variable) : Light (addVariable var) := by
  -- With its initializer the queue only gets shorter.
  intro s limit bound
  apply Within.read
  split
  · rename_i queued
    apply Within.changeThen
    apply declareVariable_light
    simp [weight, queued] at bound ⊢
    omega
  · exact declareVariable_light _ _ _ bound

/-- Declaring a label adds nothing. -/
theorem declareLabel_light (label : Label) : Light (declareLabel label) :=
  (claimGlobal_quiet _ _).light.andThen fun _ =>
    (modifyScopes_quiet _).light.andThen fun _ => emit_light _

/-- Adding a return adds nothing. -/
theorem addReturn_light (ret : Return) : Light (addReturn ret) := by
  -- It fails or is emitted.
  intro s limit bound
  apply Within.read
  split
  · exact Within.fail
  · split
    · exact Within.fail
    · exact emit_light _ _ _ bound

/-- Reading a statement leaves less to read. -/
theorem step_weight {stmt : Stmt} {s s' : Nesting} (ok : step stmt s = .ok () s') :
    s'.weight < s.weight + readingWeight stmt := by
  -- A clause may put back up to three of its four; nothing else puts anything back.
  suffices within : Within s (s.weight + (readingWeight stmt - 1)) (step stmt) by
    have bounded := within () s' ok
    have positive : 1 ≤ readingWeight stmt := by
      unfold readingWeight
      split <;> omega
    omega
  have enough : s.weight ≤ s.weight + (readingWeight stmt - 1) := Nat.le_add_right _ _
  unfold step
  split
  · exact openFunction_light _ _ _ enough
  · exact openClause_within _ _
  · exact openBare_light _ _ _ enough
  · exact close_light _ _ _ enough
  · exact addVariable_light _ _ _ enough
  · exact Within.fail
  · exact declareLabel_light _ _ _ enough
  · exact (modifyScopes_quiet _).light _ _ enough
  · exact addReturn_light _ _ _ enough
  · exact currentNs_quiet.light.andThen (fun _ => emit_light _) _ _ enough
  · exact currentNs_quiet.light.andThen (fun _ => emit_light _) _ _ enough
  · exact checkClosed_quiet.light.andThen (fun _ => emit_light _) _ _ enough
  all_goals exact emit_light _ _ _ enough

end Nesting

end CrossAsm
