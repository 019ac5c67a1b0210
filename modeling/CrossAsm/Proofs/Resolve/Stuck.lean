import CrossAsm.Proofs.Resolve.Termination
import CrossAsm.Proofs.Resolve.WellNested

/-! Stuck statements: when resolving gives up, the last round has left every statement as it is, and
those that are named are the ones in which something is unresolved, but for some that are passed
over. -/

namespace CrossAsm

namespace Resolve

variable {session after last : Session} {stmts list : List Stmt} {s : Stmt} {out next : Outcome}
  {unresolved : Nat}

/-- What a statement becomes in a session; nothing where it fails. -/
def outcome (session : Session) (s : Stmt) : Outcome :=
  match stmt s session with
  | .ok out _ => out
  | .error .. => ⟨[], 0⟩

/-- The number of parts of a statement that are unresolved in a session. -/
def unresolvedIn (session : Session) (s : Stmt) : Nat :=
  (outcome session s).unresolved

/-- The statements of a list in which something is unresolved in a session. -/
def unresolvedOf (session : Session) (list : List Stmt) : List Stmt :=
  list.filter fun s => 0 < unresolvedIn session s

/-! ### A round that leaves its list -/

/-- Where nothing in place of a statement outweighs it, all together do not weigh more than before. -/
theorem weighs_le {f : Stmt → Nat} {become : Stmt → List Stmt}
    (each : ∀ s ∈ stmts, total ((become s).map f) ≤ f s) :
    total ((stmts.flatMap become).map f) ≤ total (stmts.map f) := by
  -- By induction on the statements.
  induction stmts with
  | nil => exact Nat.le_refl 0
  | cons first others ih =>
    rw [List.forall_mem_cons] at each
    have rest := ih each.2
    simp only [List.flatMap_cons, List.map_append, total_append, List.map_cons, total_cons]
    omega

/-- Statements of one unit each weigh as much as there are of them. -/
theorem weighs_length : total (stmts.map fun _ => 1) = stmts.length := by
  -- By induction on the statements.
  induction stmts with
  | nil => rfl
  | cons first others ih => rw [List.map_cons, total_cons, ih, List.length_cons, Nat.add_comm]

/-- If they weigh no less either, what stands in place of each statement weighs what it did. -/
theorem weighs_same {f : Stmt → Nat} {become : Stmt → List Stmt}
    (each : ∀ s ∈ stmts, total ((become s).map f) ≤ f s)
    (whole : total (stmts.map f) ≤ total ((stmts.flatMap become).map f)) :
    ∀ s ∈ stmts, total ((become s).map f) = f s := by
  -- By induction on the statements: one that got lighter would make the whole lighter.
  induction stmts with
  | nil => exact nofun
  | cons first others ih =>
    rw [List.forall_mem_cons] at each ⊢
    have rest := weighs_le each.2
    simp only [List.flatMap_cons, List.map_append, total_append, List.map_cons, total_cons] at whole
    exact ⟨by omega, ih each.2 (by omega)⟩

/-- Where each statement is replaced by one, and the list is the same, each is replaced by itself. -/
theorem replaced_by_itself {become : Stmt → List Stmt} (same : stmts.flatMap become = stmts)
    (single : ∀ s ∈ stmts, (become s).length = 1) : ∀ s ∈ stmts, become s = [s] := by
  -- By induction on the statements; with one for each, the places are the same.
  induction stmts with
  | nil => exact nofun
  | cons first others ih =>
    rw [List.forall_mem_cons] at single ⊢
    obtain ⟨x, alone⟩ := List.length_eq_one_iff.1 single.1
    rw [List.flatMap_cons, alone, List.singleton_append, List.cons.injEq] at same
    obtain ⟨rfl, rest⟩ := same
    exact ⟨alone, ih rest single.2⟩

/-- A call that is spliced in is part of the expansion. -/
theorem expansion_of_spliced {args : List (String × Expr)} {chain : List String} {c : Call}
    (inside : .item (.call c) ∈ spliceAll args chain stmts) : c.expansion = chain := by
  -- Splicing gives the chain to the calls on top, and those are what is asked for.
  rw [spliceAll_eq] at inside
  obtain ⟨s, -, made⟩ := List.mem_map.1 inside
  cases s with
  | item item =>
    rw [splice, Stmt.item.injEq] at made
    cases item with
    | call =>
      cases made
      rfl
    | _ => cases made
  | conditional cond =>
    rw [splice_conditional] at made
    cases made
  | function func =>
    rw [splice] at made
    cases made

/-- What stands in place of a statement has more labels; or it is the statement; or it is no call, and
neither are others beside it; or the statement is a call, and every call in its place has a longer
chain. -/
theorem Turn.replaces (turn : Turn session s out after) :
    (labelNames [s]).length < (labelNames out.stmts).length ∨ out.stmts = [s] ∨
      (out.stmts.length ≤ 1 ∧ ∀ c, .item (.call c) ∉ out.stmts) ∨
      ∃ c, s = .item (.call c) ∧
        ∀ c', .item (.call c') ∈ out.stmts → c.expansion.length < c'.expansion.length := by
  -- By the turn.
  cases turn with
  | dropped => exact .inr (.inr (.inl ⟨Nat.zero_le 1, fun c => List.not_mem_nil⟩))
  | kept refines =>
    refine .inr (.inr (.inl ⟨Nat.le_refl 1, fun c inside => ?_⟩))
    cases List.mem_singleton.1 inside
    cases refines
  | waits => exact .inr (.inl rfl)
  | called | returned =>
    refine .inr (.inr (.inl ⟨Nat.le_refl 1, fun c inside => ?_⟩))
    cases List.mem_singleton.1 inside
  | @expanded c owner func args =>
    refine .inr (.inr (.inr ⟨c, rfl, fun c' inside => ?_⟩))
    rw [expansion_of_spliced inside, List.length_append]
    exact Nat.lt_succ_self _
  | subroutine subroutine ran =>
    exact .inl (labelNames_pos (Lowering.function_emits subroutine ran).2)
  | conditional ran => exact .inl (labelNames_pos (Lowering.conditional_emits ran).2.2)

/-- Whether a statement is a call under a chain of a length. -/
def isCallAt (length : Nat) : Stmt → Bool
  | .item (.call c) => c.expansion.length == length
  | _ => false

/-- Such a statement is a call. -/
theorem isCallAt_iff {length : Nat} :
    isCallAt length s = true ↔ ∃ c, s = .item (.call c) ∧ c.expansion.length = length := by
  -- By cases on the statement.
  unfold isCallAt
  split
  · simp
  · rename_i other
    refine ⟨nofun, ?_⟩
    rintro ⟨c, rfl, -⟩
    exact absurd rfl (other c)

/-- A round that leaves its list asks each statement in the same session, and there are no more labels
in what stands in place of any of them. -/
theorem round_in_session (ran : round stmts session = .ok next after)
    (labels : (labelNames next.stmts).length ≤ (labelNames stmts).length) :
    after = session ∧ next.stmts = stmts.flatMap (fun s => (outcome session s).stmts) ∧
      next.unresolved = total (stmts.map (unresolvedIn session)) ∧
      ∀ s ∈ stmts, stmt s session = .ok (outcome session s) session ∧
        (labelNames (outcome session s).stmts).length ≤ (labelNames [s]).length := by
  -- By induction on the statements of the round.
  induction stmts generalizing session next with
  | nil =>
    -- Nothing is asked, and nothing is left.
    rw [round, pure_eq_ok] at ran
    obtain ⟨rfl, rfl⟩ := ran
    exact ⟨rfl, rfl, rfl, fun _ inside => absurd inside List.not_mem_nil⟩
  | cons first others ih =>
    simp only [round, bind_eq_ok, pure_eq_ok] at ran
    obtain ⟨here, middle, stepped, rest, _, ranRest, rfl, rfl⟩ := ran
    have asked : outcome session first = here := by rw [outcome, stepped]
    have split : (labelNames (first :: others)).length =
        (labelNames [first]).length + (labelNames others).length := by
      simp
    simp only [labelNames_append, List.length_append, split] at labels
    -- A turn with more labels would leave more of them in all, for no round takes any away.
    rcases (stmt_turn stepped).labels with more | ⟨rfl, enough⟩
    · rcases round_labels ranRest with more' | ⟨-, enough'⟩ <;> omega
    obtain ⟨rfl, stmts, unresolved, each⟩ := ih ranRest (by omega)
    -- No turn adds a label then, and the others are asked in the session of the first one.
    have few : (labelNames here.stmts).length ≤ (labelNames [first]).length := by
      rcases round_labels ranRest with more' | ⟨-, enough'⟩ <;> omega
    subst asked
    refine ⟨rfl, ?_, ?_, List.forall_mem_cons.2 ⟨⟨stepped, few⟩, each⟩⟩
    · rw [List.flatMap_cons, stmts]
    · rw [List.map_cons, total_cons, unresolved]
      rfl

/-- A round that leaves its list leaves every statement. -/
theorem round_leaves (ran : round list session = .ok ⟨list, unresolved⟩ after) :
    unresolved = total (list.map (unresolvedIn session)) ∧
      ∀ s ∈ list, stmt s session = .ok ⟨[s], unresolvedIn session s⟩ session := by
  obtain ⟨-, whole, counted, each⟩ := round_in_session ran (Nat.le_refl _)
  have turns : ∀ s ∈ list, Turn session s (outcome session s) session := fun s inside =>
    stmt_turn (each s inside).1
  -- By induction on the length of the chain: no call under a chain of that length is replaced, for
  -- what stands in place of other statements brings no such call instead.
  have calls : ∀ length, ∀ s ∈ list, isCallAt length s → (outcome session s).stmts = [s] := by
    intro length
    induction length using Nat.strongRecOn with
    | ind length ih =>
      -- A statement is left, or there is no call with that chain in its place.
      have replaced : ∀ s ∈ list, (outcome session s).stmts = [s] ∨
          ∀ x ∈ (outcome session s).stmts, (isCallAt length x).toNat = 0 := by
        intro s inside
        by_cases longer : ∃ x ∈ (outcome session s).stmts, isCallAt length x = true
        · obtain ⟨x, among, call⟩ := longer
          obtain ⟨c', rfl, same⟩ := isCallAt_iff.1 call
          rcases (turns s inside).replaces with more | itself | ⟨-, none⟩ | ⟨c, rfl, further⟩
          · exact absurd (each s inside).2 (Nat.not_le_of_lt more)
          · exact .inl itself
          · exact absurd among (none c')
          · exact .inl (ih _ (same ▸ further c' among) _ inside (isCallAt_iff.2 ⟨c, rfl, rfl⟩))
        · refine .inr fun x among => ?_
          rw [Bool.toNat_eq_zero, Bool.eq_false_iff]
          exact fun call => longer ⟨x, among, call⟩
      -- So in place of no statement there are more such calls than it is itself.
      have light : ∀ s ∈ list, total ((outcome session s).stmts.map
          fun x => (isCallAt length x).toNat) ≤ (isCallAt length s).toNat := by
        intro s inside
        rcases replaced s inside with itself | none
        · rw [itself]
          exact Nat.le_refl _
        · rw [total_map_eq_zero none]
          exact Nat.zero_le _
      -- A call with none in its place would leave one less in all.
      intro s inside call
      refine (replaced s inside).resolve_right fun none => ?_
      have weight := weighs_same light (by rw [← whole]) s inside
      rw [total_map_eq_zero none, call] at weight
      cases weight
  -- So in place of every statement there is at most one, and then there is one in place of each.
  have few : ∀ s ∈ list, total ((outcome session s).stmts.map fun _ => 1) ≤ 1 := by
    intro s inside
    rw [weighs_length]
    rcases (turns s inside).replaces with more | itself | ⟨few, -⟩ | ⟨c, rfl, -⟩
    · exact absurd (each s inside).2 (Nat.not_le_of_lt more)
    · rw [itself]
      exact Nat.le_refl 1
    · exact few
    · rw [calls _ _ inside (isCallAt_iff.2 ⟨c, rfl, rfl⟩)]
      exact Nat.le_refl 1
  have single := weighs_same few (by rw [← whole])
  simp only [weighs_length] at single
  refine ⟨counted, fun s inside => ?_⟩
  rw [(each s inside).1, unresolvedIn, ← replaced_by_itself whole.symm single s inside]

/-! ### What is named -/

/-- A statement that is passed over when what is stuck is named, whatever is unresolved in it: a
variable of known size, or an instruction that has its mode. -/
def isOverlooked : Stmt → Bool
  | .item (.instruction line) => line.mode.isSome
  | .item (.var var) => var.size.isSome
  | _ => false

/-- A statement that a round leaves is one that lasts, or a call that waits. -/
theorem Turn.leaves (turn : Turn session s ⟨[s], unresolved⟩ after) :
    (∃ item, s = .item item ∧ Refines item item) ∨ ∃ c, s = .item (.call c) ∧ unresolved = 1 := by
  -- By the turn; one that changes the session leaves more than the statement.
  generalize same : (⟨[s], unresolved⟩ : Outcome) = out at turn
  cases turn with
  -- What is dropped is not left.
  | dropped => cases same
  | kept refines =>
    cases same
    exact .inl ⟨_, rfl, refines⟩
  | waits =>
    cases same
    exact .inr ⟨_, rfl, rfl⟩
  -- A call or a return that is replaced is replaced by something else.
  | called | returned => cases same
  | @expanded c _ func args =>
    -- What is spliced in has a longer chain than the call.
    have alone : [.item (.call c)] = spliceAll args (c.expansion ++ [func.decl.name]) func.body :=
      congrArg Outcome.stmts same
    have longer := expansion_of_spliced (alone ▸ List.mem_singleton_self _)
    simpa using congrArg List.length longer
  | @subroutine func code _ subroutine ran =>
    -- Code that is lowered has a label in it, which the tree is not.
    obtain rfl : [.function func] = code := congrArg Outcome.stmts same
    obtain ⟨-, l, inside⟩ := Lowering.function_emits subroutine ran
    cases List.mem_singleton.1 inside
  | @conditional cond code _ ran =>
    obtain rfl : [.conditional cond] = code := congrArg Outcome.stmts same
    obtain ⟨-, -, l, inside⟩ := Lowering.conditional_emits ran
    cases List.mem_singleton.1 inside

/-- Of the statements that a round leaves, those are pending in which something is unresolved, and that
are not passed over. -/
theorem isPending_iff (ran : stmt s session = .ok ⟨[s], unresolved⟩ session) :
    isPending s = true ↔ 0 < unresolved ∧ isOverlooked s = false := by
  obtain ⟨item, rfl, refines⟩ | ⟨c, rfl, rfl⟩ := (stmt_turn ran).leaves
  · -- By what the statement refines to, or it is a call.
    cases refines with
    | label | fileBegin | fileEnd | directive =>
      cases ran
      simp [isPending]
    | instruction line =>
      -- An instruction is pending as long as it has no mode.
      obtain ⟨asked, -⟩ := Session.ask_eq_ok.1 ran
      rcases instruction_outcome asked with waits | ⟨resolved, settled⟩
      · cases waits
        cases mode : line.mode <;> simp [isPending, isOverlooked, mode]
      · obtain ⟨same, rfl⟩ := Outcome.mk.inj settled
        cases same
        rw [settled] at asked
        obtain ⟨operand, mode, -, -, same⟩ := instruction_settled asked
        have chosen : line.mode = some mode := congrArg Instruction.mode same
        simp [isPending, chosen]
    | var var =>
      -- A variable is pending as long as its size is open.
      obtain ⟨asked, -⟩ := Session.ask_eq_ok.1 ran
      simp only [variableOf_eq, except_bind_eq_ok, except_pure_eq_ok] at asked
      obtain ⟨size, -, ⟨address, addressOpen⟩, -, ⟨init, initOpen⟩, -, same⟩ := asked
      obtain ⟨whole, rfl⟩ := Outcome.mk.inj same
      simp only [List.cons.injEq, Stmt.item.injEq, Item.var.injEq, and_true] at whole
      have known : size = var.size := congrArg Variable.size whole
      -- A size that is not known counts, and one that is known is all that matters.
      cases sized : var.size with
      | none =>
        simp only [isPending, isOverlooked, known, sized, Option.isNone_none, Option.isSome_none,
          if_true, and_true, true_iff]
        omega
      | some => simp [isPending, isOverlooked, sized]
  · -- A call is pending whenever it is left.
    simp [isPending, isOverlooked]

/-- Want of progress is found in no other stage. -/
theorem noProgress_stage {count left rounds : Nat} {stage : Stage} {stuck : List String}
    (ran : roundsFrom count left stmts session = .error (.noProgress stage rounds stuck) last) :
    stage = .resolve := by
  -- By induction on the rounds that are left.
  induction left generalizing count stmts session with
  | zero => cases ran
  | succ left ih =>
    cases first : round stmts session with
    | error e middle =>
      rw [roundsFrom_error first] at ran
      cases ran
      cases ((round_roundStep stmts).fails (.refl session) first).2
    | ok next middle =>
      rw [roundsFrom_ok first] at ran
      split at ran
      · cases ran
      · split at ran
        · cases ran
          rfl
        · exact ih ran

/-- When the loop gives up for want of progress, the last round has left every statement of its list,
and something is unresolved in some of them. -/
theorem roundsFrom_stuck {count left rounds : Nat} {stuck : List String}
    (ran : roundsFrom count left stmts session = .error (.noProgress .resolve rounds stuck) last) :
    ∃ list : List Stmt,
      (∀ more, rounds ≤ count + more + 1 → afterRounds more stmts session = some (list, last)) ∧
      (∀ s ∈ list, stmt s last = .ok ⟨[s], unresolvedIn last s⟩ last) ∧
      unresolvedOf last list ≠ [] ∧ stuck = (list.filter isPending).map Stmt.located := by
  -- The last round left its list, and so every statement in it.
  obtain ⟨-, list, unresolved, positive, again, named, after⟩ := roundsFrom_noProgress ran
  obtain ⟨counted, leaves⟩ := round_leaves again
  refine ⟨list, after, leaves, fun none => ?_, named⟩
  rw [counted, total_map_eq_zero fun s inside => ?_] at positive
  · exact absurd positive (Nat.lt_irrefl 0)
  · simpa using List.filter_eq_nil_iff.1 none s inside

end Resolve

/-- What is named when resolving gives up for want of progress. In the list that the last round leaves,
every statement is left as it is, and in some of them something is unresolved. These are named in their
order, but for those that are passed over; so just these are named if, and only if, none of them is a
variable of known size or an instruction that has its mode. -/
theorem resolve_names_stuck (stmts : List Stmt) (session last : Session) (stage : Stage)
    (rounds : Nat) (stuck : List String)
    (ran : resolve stmts session = .error (.noProgress stage rounds stuck) last) :
    ∃ list : List Stmt,
      (∀ more, rounds ≤ more + 1 → Resolve.afterRounds more stmts session = some (list, last)) ∧
      (∀ s ∈ list, Resolve.stmt s last = .ok ⟨[s], Resolve.unresolvedIn last s⟩ last) ∧
      Resolve.unresolvedOf last list ≠ [] ∧
      stuck = ((Resolve.unresolvedOf last list).filter fun s => !Resolve.isOverlooked s).map
        Stmt.located ∧
      (stuck = (Resolve.unresolvedOf last list).map Stmt.located ↔
        ∀ s ∈ Resolve.unresolvedOf last list, Resolve.isOverlooked s = false) := by
  -- Of the statements in the list those are pending that are unresolved and not overlooked.
  obtain rfl := Resolve.noProgress_stage ran
  obtain ⟨list, after, leaves, something, named⟩ := Resolve.roundsFrom_stuck ran
  have pending : stuck =
      ((Resolve.unresolvedOf last list).filter fun s => !Resolve.isOverlooked s).map Stmt.located := by
    rw [named, Resolve.unresolvedOf, List.filter_filter]
    refine congrArg (List.map Stmt.located) (List.filter_congr fun s inside => ?_)
    rw [Bool.eq_iff_iff, Resolve.isPending_iff (leaves s inside)]
    simp [and_comm]
  refine ⟨list, fun more enough => after more (by omega), leaves, something, pending, ?_, ?_⟩
  · -- As many are named as there are, so none has been passed over.
    intro same s inside
    have lengths := congrArg List.length (pending.symm.trans same)
    rw [List.length_map, List.length_map, List.length_filter_eq_length_iff] at lengths
    simpa using lengths s inside
  · intro all
    rw [pending, List.filter_eq_self.2 fun s inside => by simp [all s inside]]

/-- A variable, and a jump to a name that nothing defines. -/
def unknownJump : List Stmt :=
  [.item (.var ⟨"byte", "y", false, .scalar, none, none, .global, none, default⟩),
    .item (.instruction (.unresolved .jmp (.address (.name "nowhere")) .global default))]

/-- The jump is named. -/
theorem unknownJump_named :
    ∃ stuck last, resolve unknownJump { cpu := .nmos } = .error (.noProgress .resolve 2 stuck) last ∧
      stuck = [":1:1:     jmp nowhere"] ∧
      ∃ list : List Stmt, Resolve.unresolvedOf last list ≠ [] ∧
        stuck = ((Resolve.unresolvedOf last list).filter fun s => !Resolve.isOverlooked s).map
          Stmt.located := by
  -- The rounds are evaluated, and the theorem tells what is named.
  have evaluated : (match resolve unknownJump { cpu := .nmos } with
      | .error (.noProgress .resolve rounds stuck) _ =>
        rounds == 2 && stuck == [":1:1:     jmp nowhere"]
      | _ => false) = true := by
    decide +kernel
  split at evaluated
  · rename_i rounds stuck last ran
    obtain ⟨rfl, rfl⟩ : rounds = 2 ∧ stuck = [":1:1:     jmp nowhere"] := by simpa using evaluated
    obtain ⟨list, -, -, something, named, -⟩ := resolve_names_stuck _ _ _ _ _ _ ran
    exact ⟨_, last, ran, rfl, list, something, named⟩
  · cases evaluated

/-- A variable whose address is a name that nothing defines. -/
def unknownAddress : List Stmt :=
  [.item (.var ⟨"byte", "x", false, .scalar, some (.name "nowhere"), none, .global, none, default⟩)]

/-- A variable that waits for its address is the reason for giving up, and nothing is named. -/
theorem unknownAddress_unnamed :
    ∃ last, resolve unknownAddress { cpu := .nmos } = .error (.noProgress .resolve 2 []) last ∧
      ∃ list : List Stmt, Resolve.afterRounds 1 unknownAddress { cpu := .nmos } = some (list, last) ∧
        Resolve.unresolvedOf last list ≠ [] := by
  -- The rounds are evaluated; the list is the one that the last of them left.
  have evaluated : (match resolve unknownAddress { cpu := .nmos } with
      | .error (.noProgress .resolve rounds stuck) _ => rounds == 2 && stuck == []
      | _ => false) = true := by
    decide +kernel
  split at evaluated
  · rename_i rounds stuck last ran
    obtain ⟨rfl, rfl⟩ : rounds = 2 ∧ stuck = [] := by simpa using evaluated
    obtain ⟨list, after, -, something, -⟩ := Resolve.roundsFrom_stuck ran
    exact ⟨last, ran, list, after 1 (Nat.le_refl 2), something⟩
  · cases evaluated

end CrossAsm
