import Mathlib.Data.List.Forall2
import CrossAsm.Proofs.Nesting.Declarations
import CrossAsm.Proofs.Resolve.Fixpoint
import CrossAsm.Proofs.Resolve.Persistence

/-! Binding once, at the end. Rounds that leave every operand as it is written come to the same
statements as rounds that bind each operand as soon as they can, if all operands are then bound with
the session that is left at the end. -/

namespace CrossAsm

open View (Lasts)

namespace Resolve

/-! ### Rounds that bind no operand -/

/-- What a statement becomes if operands are left as they are: an instruction or a variable stays,
and a call that need not wait is replaced by what it stands for at the end. -/
def unboundStmt (final : Session) (s : Stmt) : SessionStep (List Stmt) := do
  match s with
  | .item (.instruction _) | .item (.var _) => return [s]
  | .item (.call c) =>
    -- Whether it waits is asked here, for labels are minted in the order of the expansions.
    let here ← Session.ask (call · c)
    if here.stmts = [s] then
      return [s]
    else
      return (← Session.ask fun _ => call final c).stmts
  | _ => return (← stmt s).stmts

/-- One round over all statements that leaves operands as they are. -/
def unboundRound (final : Session) : List Stmt → SessionStep (List Stmt)
  | [] => return []
  | first :: others => do
    let here ← unboundStmt final first
    return here ++ (← unboundRound final others)

/-- A number of rounds that leave operands as they are. -/
def unboundRounds (final : Session) : Nat → List Stmt → SessionStep (List Stmt)
  | 0, stmts => return stmts
  | more + 1, stmts => do
    unboundRounds final more (← unboundRound final stmts)

/-! ### Binding early -/

section Early

variable {early late : View} (lasts : ∀ e, Lasts (early.bind e) (late.bind e))

include lasts

/-- What an expression is bound to early is bound to itself later, as the expression is. -/
theorem bind_early {e value : Expr} (known : early.bind e = .ok (some value)) :
    late.bind e = .ok (some value) ∧ late.bind value = .ok (some value) :=
  ⟨lasts e known, View.bind_of_settled (View.bind_settled known)⟩

/-- Values of which some are bound early are bound to the same later. -/
theorem bindEach_early {exprs exprs' : List Expr} {unknown : Nat}
    (ran : bindEach early exprs = .ok (exprs', unknown)) :
    bindEach late exprs' = bindEach late exprs := by
  -- Value by value: one that is bound early is known later, and another one is still the same.
  induction exprs generalizing exprs' unknown with
  | nil =>
    cases ran
    rfl
  | cons e others ih =>
    simp only [bindEach, except_bind_eq_ok] at ran
    obtain ⟨bound, known, ⟨rest, count⟩, ranRest, ran⟩ := ran
    cases bound with
    | none =>
      cases ran
      simp only [bindEach, ih ranRest]
    | some value =>
      cases ran
      obtain ⟨later, again⟩ := bind_early lasts known
      simp only [bindEach, ih ranRest, later, again]
      rfl

/-- An initializer of which values are bound early is bound to the same later. -/
theorem boundInit_early {init init' : Option Initializer} {unknown : Nat}
    (ran : boundInit early init = .ok (init', unknown)) :
    boundInit late init' = boundInit late init := by
  -- By what the initializer is: missing, values, or a text.
  rcases init with _ | ⟨exprs | text, pos⟩
  · cases ran
    rfl
  · simp only [boundInit, except_bind_eq_ok] at ran
    obtain ⟨⟨exprs', _⟩, bound, ran⟩ := ran
    cases ran
    simp only [boundInit, bindEach_early lasts bound]
  · -- A text has nothing in it to bind.
    cases ran
    rfl

/-- An address that is bound early is bound to the same later. -/
theorem boundAddress_early {address address' : Option Expr} {unknown : Nat}
    (ran : boundAddress early address = .ok (address', unknown)) :
    boundAddress late address' = boundAddress late address := by
  -- By whether there is an address, and whether it is known early.
  cases address with
  | none =>
    cases ran
    rfl
  | some e =>
    simp only [boundAddress, except_bind_eq_ok] at ran
    obtain ⟨bound, known, ran⟩ := ran
    cases bound with
    | none =>
      cases ran
      rfl
    | some value =>
      cases ran
      obtain ⟨later, again⟩ := bind_early lasts known
      simp only [boundAddress, later, again]
      rfl

/-- Arguments that are known are known later. -/
theorem bindArgs_early (args : List (String × Expr)) :
    Lasts (bindArgs early args) (bindArgs late args) := by
  -- One argument that is not known is enough to know none of them.
  induction args with
  | nil => exact .refl _
  | cons first others ih =>
    obtain ⟨param, arg⟩ := first
    exact (lasts arg).bind (fun value => ih.map ((param, value) :: ·)) nofun

end Early

variable {session final after : Session} {out : Outcome}

/-- An operand that is known is known at the end. -/
theorem boundOperand_early (orderly : session.Orderly) (ahead : session.Ahead final)
    (line : Instruction) : Lasts (boundOperand session line) (boundOperand final line) := by
  -- An operand without a value is known in any session.
  unfold boundOperand
  cases line.operand.value? with
  | none => exact .refl _
  | some e => exact (ahead.bind orderly line.ns line.pos e).map _

/-- An instruction that is settled early, and one that waits, become the same at the end. -/
theorem instruction_early (orderly : session.Orderly) (ahead : session.Ahead final)
    {line : Instruction} (ran : instruction session line = .ok out) :
    ∃ line', out.stmts = [.item (.instruction line')] ∧
      instruction final line' = instruction final line := by
  -- The instruction waits as it is, or is settled with an operand that lasts.
  rcases instruction_outcome ran with rfl | ⟨resolved, rfl⟩
  · exact ⟨line, rfl, rfl⟩
  · refine ⟨resolved, rfl, ?_⟩
    have cpu : final.cpu = session.cpu := ahead.onward.cpu
    rw [instruction_again ran cpu]
    -- At the end the operand is bound to the same, on the same processor.
    obtain ⟨operand, mode, bound, selected, rfl⟩ := instruction_settled ran
    symm
    rw [instruction_eq, except_bind_eq_ok]
    refine ⟨some operand, boundOperand_early orderly ahead line bound, ?_⟩
    simp only [cpu, selected]
    rfl

/-- A variable of which parts are bound early becomes the same at the end. -/
theorem variableOf_early (orderly : session.Orderly) (ahead : session.Ahead final)
    {var : Variable} (ran : variableOf session var = .ok out) :
    ∃ var', out.stmts = [.item (.var var')] ∧ variableOf final var' = variableOf final var := by
  -- Each part is bound to what it is bound to at the end, or left.
  have lasts := ahead.bind orderly var.ns var.pos
  simp only [variableOf_eq session, except_bind_eq_ok, except_pure_eq_ok] at ran
  obtain ⟨size, -, ⟨address, _⟩, placed, ⟨init, _⟩, filled, rfl⟩ := ran
  refine ⟨_, rfl, ?_⟩
  -- The size is asked for with the same type and the same number of elements.
  have counted := (boundInit_again filled).2
  simp only [variableOf_eq final, View.sizeOfVariable, countWith_congr _ _ counted,
    boundAddress_early lasts placed, boundInit_early lasts filled]

/-- An inline function whose arguments are known is expanded to the same at the end. -/
theorem expand_early (orderly : session.Orderly) (ahead : session.Ahead final) {c : Call}
    {func : FunctionSymbol} (ran : expand session c func = .ok out)
    (replaced : out.stmts ≠ [.item (.call c)]) : expand final c func = .ok out := by
  unfold expand at ran ⊢
  simp only at ran ⊢
  -- The checks are those of the call itself; only the arguments are bound with the session.
  split at ran
  · cases ran
  · rename_i fresh
    rw [if_neg fresh]
    split at ran
    · cases ran
    · rename_i fits
      rw [if_neg fits]
      rw [except_bind_eq_ok] at ran ⊢
      obtain ⟨bound, known, ran⟩ := ran
      cases bound with
      | none =>
        cases ran
        exact absurd rfl replaced
      | some args =>
        exact ⟨some args, bindArgs_early (ahead.bind orderly c.ns c.pos) _ known, ran⟩

/-- A call that does not wait is replaced by the same at the end. -/
theorem call_early (orderly : session.Orderly) (ahead : session.Ahead final) {c : Call}
    (ran : call session c = .ok out) (replaced : out.stmts ≠ [.item (.call c)]) :
    call final c = .ok out := by
  -- What the name leads to decides; only a function is called, and an entry that it has stays.
  have kept := ScopeTable.lookup?_kept orderly.tidy orderly.reserved ahead.onward.comes c.name c.ns
  unfold call at ran ⊢
  generalize session.scopes.lookup? c.name c.ns = first at kept ran
  generalize final.scopes.lookup? c.name c.ns = second at kept
  cases kept with
  -- A name that came later was unknown at first.
  | minted | label => cases ran
  | @entered _ func first =>
    simp only [first] at ran ⊢
    split at ran
    · rename_i isInline
      rw [if_pos isInline]
      exact expand_early orderly ahead ran replaced
    · -- Without an entry it would wait.
      split at ran
      · cases ran
      · cases ran
        exact absurd rfl replaced
  | same =>
    -- The symbol is the same at both times.
    rcases first with _ | ⟨_, _ | func | _ | _⟩
    · cases ran
    · cases ran
    · simp only at ran ⊢
      split at ran
      · rename_i isInline
        rw [if_pos isInline]
        exact expand_early orderly ahead ran replaced
      · -- A call of a subroutine asks for nothing but its entry.
        rename_i subroutine
        rw [if_neg subroutine]
        exact ran
    · cases ran
    · cases ran

/-! ### Round by round -/

/-- A statement with its operand as written, and the one that it has become in rounds that bind
operands: both become the same at the end. -/
inductive Bound (final : Session) : Stmt → Stmt → Prop
  | same (s : Stmt) : Bound final s s
  | instruction {line line' : Instruction}
    (alike : instruction final line' = instruction final line) :
    Bound final (.item (.instruction line)) (.item (.instruction line'))
  | var {var var' : Variable} (alike : variableOf final var' = variableOf final var) :
    Bound final (.item (.var var)) (.item (.var var'))

variable {real unbound flat : List Stmt} {next : Outcome} {count left : Nat}

/-- The turn of an instruction with its operand as written. -/
theorem instruction_unbound (orderly : session.Orderly) (ahead : session.Ahead final)
    {line line' : Instruction} (alike : instruction final line' = instruction final line)
    (ran : stmt (.item (.instruction line')) session = .ok out after) :
    session = after ∧ List.Forall₂ (Bound final) [.item (.instruction line)] out.stmts := by
  -- The session is only asked, and what it answers is bound at the end.
  obtain ⟨asked, rfl⟩ := Session.ask_eq_ok.1 ran
  obtain ⟨line'', became, again⟩ := instruction_early orderly ahead asked
  rw [became]
  exact ⟨rfl, .cons (.instruction (again.trans alike)) .nil⟩

/-- The turn of a variable with its parts as written. -/
theorem variable_unbound (orderly : session.Orderly) (ahead : session.Ahead final)
    {var var' : Variable} (alike : variableOf final var' = variableOf final var)
    (ran : stmt (.item (.var var')) session = .ok out after) :
    session = after ∧ List.Forall₂ (Bound final) [.item (.var var)] out.stmts := by
  -- The session is only asked, and what it answers is bound at the end.
  obtain ⟨asked, rfl⟩ := Session.ask_eq_ok.1 ran
  obtain ⟨var'', became, again⟩ := variableOf_early orderly ahead asked
  rw [became]
  exact ⟨rfl, .cons (.var (again.trans alike)) .nil⟩

/-- The turn of a call with its arguments as written. -/
theorem call_unbound (orderly : session.Orderly) (ahead : session.Ahead final) {c : Call}
    (ran : stmt (.item (.call c)) session = .ok out after) :
    unboundStmt final (.item (.call c)) session = .ok out.stmts after := by
  -- The session is only asked, and the call waits or is replaced.
  obtain ⟨asked, rfl⟩ := Session.ask_eq_ok.1 ran
  simp only [unboundStmt, bind_eq_ok]
  refine ⟨out, session, Session.ask_eq_ok.2 ⟨asked, rfl⟩, ?_⟩
  by_cases waits : out.stmts = [.item (.call c)]
  · -- The call is asked about again in the next round.
    rw [if_pos waits, waits]
    rfl
  · rw [if_neg waits]
    simp only [bind_eq_ok, pure_eq_ok]
    -- It stands for the same at the end.
    have there := call_early orderly ahead asked waits
    exact ⟨out, session, Session.ask_eq_ok.2 ⟨there, rfl⟩, rfl, rfl⟩

/-- The turn of a statement with its operand as written. -/
theorem stmt_unbound (orderly : session.Orderly) (ahead : session.Ahead final) {s s' : Stmt}
    (bound : Bound final s s') (ran : stmt s' session = .ok out after) :
    ∃ here, unboundStmt final s session = .ok here after ∧
      List.Forall₂ (Bound final) here out.stmts := by
  -- By how the two statements are bound to each other.
  have same : List.Forall₂ (Bound final) out.stmts out.stmts :=
    List.forall₂_same.2 fun s _ => .same s
  -- An operand or a variable is bound in its turn, whether it was before or not.
  cases bound with
  | instruction alike =>
    obtain ⟨rfl, bound⟩ := instruction_unbound orderly ahead alike ran
    exact ⟨_, rfl, bound⟩
  | var alike =>
    obtain ⟨rfl, bound⟩ := variable_unbound orderly ahead alike ran
    exact ⟨_, rfl, bound⟩
  | same =>
    -- What is neither an operand nor a call has the same turn in both.
    have lowered : (do return (← stmt s).stmts : SessionStep (List Stmt)) session =
        .ok out.stmts after :=
      bind_eq_ok.2 ⟨out, after, ran, rfl⟩
    -- A function or a conditional is lowered.
    cases s with
    | function | conditional => exact ⟨_, lowered, same⟩
    | item item =>
      -- Of the items, instructions, variables and calls ask for names.
      cases item with
      | instruction line =>
        obtain ⟨rfl, bound⟩ := instruction_unbound orderly ahead rfl ran
        exact ⟨_, rfl, bound⟩
      | var var =>
        obtain ⟨rfl, bound⟩ := variable_unbound orderly ahead rfl ran
        exact ⟨_, rfl, bound⟩
      | call c => exact ⟨_, call_unbound orderly ahead ran, same⟩
      | _ => exact ⟨_, lowered, same⟩

/-- A round over statements with their operands as written. -/
theorem round_unbound (orderly : session.Orderly) (ahead : after.Ahead final)
    (bound : List.Forall₂ (Bound final) unbound real)
    (ran : round real session = .ok next after) :
    ∃ next', unboundRound final unbound session = .ok next' after ∧
      List.Forall₂ (Bound final) next' next.stmts := by
  -- Turn by turn: both leave the same session behind, and statements of which the pairs go on.
  induction bound generalizing session next with
  | nil =>
    obtain ⟨rfl, rfl⟩ := pure_eq_ok.1 ran
    exact ⟨[], rfl, .nil⟩
  | @cons s s' unbound real first _ ih =>
    simp only [round, bind_eq_ok, pure_eq_ok] at ran
    obtain ⟨here, middle, stepped, rest, _, ran, rfl, rfl⟩ := ran
    -- The session at the end is ahead of every one in between.
    have onward : session.Ahead middle :=
      (stmt_guarded (Session.ahead_invariant orderly) s').kept (.refl session) stepped
    have orderly' := orderly.ahead onward
    have further : middle.Ahead final :=
      ((round_guarded (Session.ahead_invariant orderly') real).kept (.refl middle) ran).trans ahead
    obtain ⟨here', stepped', bound⟩ := stmt_unbound orderly (onward.trans further) first stepped
    obtain ⟨rest', ran', bounds⟩ := ih orderly' ran
    refine ⟨here' ++ rest', ?_, List.rel_append bound bounds⟩
    simp only [unboundRound, bind_eq_ok, pure_eq_ok]
    exact ⟨here', middle, stepped', rest', _, ran', rfl, rfl⟩

/-- With the session at the end both become the same. -/
theorem Bound.stmt_iff {s s' : Stmt} (bound : Bound final s s') :
    stmt s final = .ok out after ↔ stmt s' final = .ok out after := by
  -- An instruction and a variable were bound to what they become.
  cases bound with
  | same => rfl
  | instruction alike | var alike =>
    simp only [stmt, Session.ask_eq_ok, alike]

/-- With the session at the end the last round makes the same of both. -/
theorem round_bound (bound : List.Forall₂ (Bound final) unbound real)
    (ran : round real final = .ok next after) (done : next.unresolved = 0) :
    round unbound final = .ok next after := by
  -- Nothing is left unresolved, so that each turn leaves the session as it is.
  induction bound generalizing next with
  | nil => exact ran
  | cons first _ ih =>
    simp only [round, bind_eq_ok, pure_eq_ok, first.stmt_iff] at ran ⊢
    obtain ⟨here, middle, stepped, rest, _, ran, rfl, rfl⟩ := ran
    obtain ⟨hereDone, restDone⟩ : here.unresolved = 0 ∧ rest.unresolved = 0 := by
      simpa using done
    obtain ⟨rfl, -⟩ := (stmt_turn stepped).finished hereDone
    exact ⟨here, _, stepped, rest, _, ih ran restDone, rfl, rfl⟩

/-- The rounds up to the last one may leave operands as they are written, if that one binds them all
with the session at the end. -/
theorem roundsFrom_unbound (orderly : session.Orderly)
    (bound : List.Forall₂ (Bound final) unbound real)
    (ran : roundsFrom count left real session = .ok flat final) :
    ∃ rounds last, unboundRounds final rounds unbound session = .ok last final ∧
      round last final = .ok ⟨flat, 0⟩ final := by
  -- The two lists stay in step, for a round takes the same session to the same one with either.
  induction left generalizing count real unbound session with
  | zero => cases ran
  | succ left ih =>
    obtain ⟨next, middle, first, ⟨done, rfl, rfl, -⟩ | ⟨ran, -⟩⟩ := roundsFrom_succ ran
    · -- This is the last round, and it leaves the session as it finds it.
      obtain ⟨rfl, -⟩ := round_finished first done
      obtain ⟨flat, _⟩ := next
      obtain rfl := done
      exact ⟨0, unbound, rfl, round_bound bound first rfl⟩
    · have onward : session.Ahead middle :=
        (round_guarded (Session.ahead_invariant orderly) real).kept (.refl session) first
      have orderly' := orderly.ahead onward
      have further : middle.Ahead final := (roundsFrom_guarded
        (Session.ahead_invariant orderly') _ _ _).kept (.refl middle) ran
      obtain ⟨next', ran', bound'⟩ := round_unbound orderly further bound first
      obtain ⟨rounds, last, rest, ends⟩ := ih orderly' bound' ran
      refine ⟨rounds + 1, last, ?_, ends⟩
      simp only [unboundRounds, bind_eq_ok]
      exact ⟨next', middle, ran', rest⟩

end Resolve

/-- Take statements and a session in which every symbol stands under its name, as nesting leaves it,
and no declaration has a global name that labels are minted under, and let them be resolved, with
success or not. What an expression is bound to with the session that one of the statements finds, it
is bound to with every session that is found later, and with the one that is left at the end. So if
resolving succeeds, it gives what comes of rounds that leave all operands as they are written and of
binding them once, at the end. -/
theorem bindings_last {stmts : List Stmt} {session final : Session}
    (tidy : session.scopes.Tidy) (reserved : session.scopes.Reserved)
    (leaves : Leaves (resolve stmts) session final) :
    ((Resolve.visits stmts session).map Prod.fst ++ [final]).Pairwise (fun early late =>
      ∀ ns pos e value, (Resolve.viewOf early ns pos).bind e = .ok (some value) →
        (Resolve.viewOf late ns pos).bind e = .ok (some value)) ∧
    ∀ flat, resolve stmts session = .ok flat final →
      ∃ rounds unbound, Resolve.unboundRounds final rounds stmts session = .ok unbound final ∧
        Resolve.round unbound final = .ok ⟨flat, 0⟩ final := by
  have orderly : session.Orderly := ⟨tidy, reserved⟩
  constructor
  · -- Each session is ahead of the first one, and so it is orderly.
    obtain ⟨ahead, order⟩ := List.pairwise_cons.1 (Resolve.visitsFrom_inOrder orderly leaves)
    refine order.imp_of_mem fun {early late} inside _ further ns pos e value known => ?_
    exact further.bind (orderly.ahead (ahead early inside)) ns pos e known
  · intro flat ran
    exact Resolve.roundsFrom_unbound orderly (List.forall₂_same.2 fun s _ => .same s) ran

/-- A variable at a fixed address, an instruction that reads behind it, and a call before the
subroutine, in which an instruction is skipped if the zero flag is clear. -/
def forwardCall : List Stmt :=
  let instruction (op : Op) (operand : Operand Expr) : Item :=
    .instruction (.unresolved op operand .global default)
  [.var ⟨"byte", "count", false, .scalar, some (.number 0x20), none, .global, none, default⟩,
    instruction .lda (.address (.binary .add (.name "count") (.number 1))),
    .call ⟨"helper", [], .global, [], default⟩,
    .functionDecl ⟨"helper", .subroutine, false, [], default⟩, .scopeBegin default,
    .clause ⟨.ifTest ⟨.near, .is, .zero⟩, default⟩, instruction .inx .none,
    .scopeEnd default].map .item

/-- The operand is bound in the first round and to the same at the end, when the entry is known as
well, and rounds that do not bind it come to the same code. -/
theorem forwardCall_bound :
    ∃ nested session flat final, nest forwardCall { cpu := .nmos } = .ok nested session ∧
      resolve nested session = .ok flat final ∧ final.labels = 1 ∧
      (Resolve.viewOf session .global default).bind (.name "helper") = .ok none ∧
      (Resolve.viewOf final .global default).bind (.binary .add (.name "count") (.number 1)) =
        .ok (some (.number 0x21)) ∧
      ∃ rounds unbound, Resolve.unboundRounds final rounds nested session = .ok unbound final ∧
        Resolve.round unbound final = .ok ⟨flat, 0⟩ final := by
  -- The rounds are evaluated, and the theorem is used of what they start from.
  have evaluated : succeedsWith (fun nested session =>
        !nested.isEmpty &&
        (session.scopes.symbols.all fun entry => entry.1.2.toList.take 2 != ['_', 'L']) &&
        succeedsWith (fun _ final => final.labels == 1) (resolve nested session) &&
        decide ((Resolve.viewOf session .global default).bind (.name "helper") = .ok none) &&
        decide ((Resolve.viewOf session .global default).bind
          (.binary .add (.name "count") (.number 1)) = .ok (some (.number 0x21))))
      (nest forwardCall { cpu := .nmos }) = true := by
    decide +kernel
  obtain ⟨nested, session, nests, passed⟩ := exists_of_succeedsWith evaluated
  simp only [Bool.and_eq_true, decide_eq_true_eq] at passed
  obtain ⟨⟨⟨⟨nonempty, plain⟩, resolves⟩, waiting⟩, known⟩ := passed
  obtain ⟨flat, final, ran, labels⟩ := exists_of_succeedsWith resolves
  have tidy : session.scopes.Tidy := nest_tidy nests ScopeTable.tidy_empty
  have reserved : session.scopes.Reserved := by
    intro count symbol found
    -- No name in the table begins like that of a label.
    have unlike := List.all_eq_true.1 plain _ (Entries.mem_of_get? found)
    simp [Session.toList_labelName] at unlike
  obtain ⟨lasts, once⟩ := bindings_last tidy reserved (.inl ⟨flat, ran⟩)
  refine ⟨nested, session, flat, final, nests, ran, by simpa using labels, waiting, ?_,
    once flat ran⟩
  -- The first statement finds the session as nesting leaves it.
  cases nested with
  | nil => cases nonempty
  | cons first others =>
    exact List.rel_of_pairwise_cons lasts (by simp) _ _ _ _ known

end CrossAsm
