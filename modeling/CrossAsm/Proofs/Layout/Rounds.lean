import CrossAsm.Proofs.Layout.Failures
import CrossAsm.Proofs.Layout.Names

/-! The rounds of layout. All addresses are bound by the walk, so one round completes whatever can be
completed at all: what is left over refers to a name that no statement binds, and a second round would
leave it just so. -/

namespace CrossAsm

/-! ### What an item refers to -/

/-- The symbols that an expression refers to. -/
def Expr.refs : Expr → List String
  | .ref key => [key]
  | .unary _ e => e.refs
  | .binary _ l r => l.refs ++ r.refs
  | .number _ | .name _ | .sizeof _ => []

/-- The expressions that layout turns into bytes: the operand of an instruction, or the initial values
of a variable. -/
def Stmt.written : Stmt → List Expr
  | .item (.instruction line) => line.operand.value?.toList
  | .item (.var var) =>
    match var.init.map Initializer.value with
    | some (.values exprs) => exprs
    | _ => []
  | _ => []

/-- The symbols whose addresses are needed to complete a statement. -/
def Stmt.refs : Stmt → List String
  | .item (.directive (.vector _ name) _) => [name]
  | s => s.written.flatMap Expr.refs

/-- Whether a statement needs the address of a symbol that none of some statements binds. -/
def Stmt.dangles (stmts : List Stmt) (s : Stmt) : Bool :=
  s.refs.any fun key => key ∉ boundNames stmts

/-- The statement that an item comes from. -/
def Deferred.stmt : Deferred → Stmt
  | .instruction line .. => .item (.instruction line)
  | .data var .. => .item (.var var)
  | .vector kind name pos => .item (.directive (.vector kind name) pos)

/-- Whether an item has to wait under some addresses. -/
def Deferred.waits (session : Session) (addresses : Addresses) (item : Deferred) : Bool :=
  match item.attempt session addresses with
  | .ok none => true
  | _ => false

/-- An error of a value: it cannot be computed, or does not fit where it is to be written. -/
inductive Error.OfValue : Error → Prop
  | eval (pos : Pos) (cause : EvalError) : OfValue (.eval pos cause)
  | encode (pos : Pos) (cause : EncodeError) : OfValue (.encode pos cause)

/-- An expression without names has a value exactly if each symbol in it has an address. -/
theorem Expr.isSome_of_eval {address : String → Option Int64} {e : Expr} (nameless : e.Nameless)
    {found : Option Int64} (evaluated : e.eval address = .ok found) :
    found.isSome ↔ ∀ key ∈ e.refs, (address key).isSome := by
  -- By induction on the expression; an operator has a value if both sides have one.
  induction e generalizing found with
  | number value =>
    -- A number has a value, and no symbol in it.
    cases evaluated
    simp [refs]
  | ref key =>
    -- A symbol has a value if it has an address.
    cases evaluated
    simp [refs]
  | name | sizeof => exact nameless.elim
  | unary op e ih =>
    simp only [eval, except_bind_eq_ok, except_pure_eq_ok] at evaluated
    obtain ⟨inner, known, rfl⟩ := evaluated
    rw [Option.isSome_map, refs]
    exact ih nameless known
  | binary op l r left right =>
    simp only [eval, except_bind_eq_ok] at evaluated
    obtain ⟨x, first, y, second, applied⟩ := evaluated
    rw [refs, List.forall_mem_append, ← left nameless.1 first, ← right nameless.2 second]
    -- The operator is applied to two values, and to nothing else.
    cases x with
    | none =>
      cases applied
      simp
    | some a =>
      cases y with
      | none =>
        cases applied
        simp
      | some b =>
        simp only [except_bind_eq_ok, except_pure_eq_ok] at applied
        obtain ⟨value, -, rfl⟩ := applied
        simp

namespace Addresses

variable {addresses : Addresses} {pos : Pos}

/-- An expression has a value under addresses exactly if each symbol in it has one. -/
theorem isSome_of_eval {e : Expr} (nameless : e.Nameless) {found : Option Int64}
    (evaluated : addresses.eval e pos = .ok found) :
    found.isSome ↔ ∀ key ∈ e.refs, addresses.Has key := by
  -- Evaluating looks up the symbols and nothing else.
  rw [Addresses.eval, mapError_eq_ok] at evaluated
  rw [Expr.isSome_of_eval nameless evaluated]
  simp only [Option.isSome_map, Has]

/-- The same for expressions in order. -/
theorem isSome_of_evalAll {exprs : List Expr} (nameless : ∀ e ∈ exprs, e.Nameless)
    {found : Option (List Int64)} (evaluated : addresses.evalAll pos exprs = .ok found) :
    found.isSome ↔ ∀ key ∈ exprs.flatMap Expr.refs, addresses.Has key := by
  -- By induction on the expressions.
  induction exprs generalizing found with
  | nil =>
    cases evaluated
    simp
  | cons e others ih =>
    rw [List.forall_mem_cons] at nameless
    simp only [Addresses.evalAll, except_bind_eq_ok] at evaluated
    obtain ⟨first, known, evaluated⟩ := evaluated
    rw [List.flatMap_cons, List.forall_mem_append, ← isSome_of_eval nameless.1 known]
    -- The others are only looked at behind a first value.
    cases first with
    | none =>
      cases evaluated
      simp
    | some value =>
      simp only [except_bind_eq_ok, except_pure_eq_ok] at evaluated
      obtain ⟨rest, known, rfl⟩ := evaluated
      rw [Option.isSome_map, ih nameless.2 known, Option.isSome_some]
      simp only [true_and]

end Addresses

/-- No name is left in what layout turns into bytes. -/
theorem Stmt.Encodable.nameless {cpu : Cpu} {s : Stmt} (encodable : s.Encodable cpu) :
    ∀ e ∈ s.written, e.Nameless := by
  -- Only an instruction and a variable hold expressions that become bytes.
  cases encodable with
  | label | fileBegin | fileEnd | directive => exact nofun
  | instruction encodable =>
    intro e inside
    exact encodable.nameless e (Option.mem_toList.1 inside)
  | @var var known =>
    intro e inside
    -- Only a list of values has expressions in it.
    cases filled : var.init with
    | none => simp [written, filled] at inside
    | some init =>
      cases held : init.value with
      | text content => simp [written, filled, held] at inside
      | values exprs =>
        simp only [written, filled, Option.map_some, held] at inside
        exact known.init init filled exprs held e inside

namespace Deferred

variable {session : Session} {addresses old new : Addresses} {item : Deferred}

/-- An operand is found exactly if each symbol in it has an address. -/
theorem isSome_of_instructionBytes {cpu : Cpu} {line : Instruction} {mode : Mode} {pc : UInt16}
    (nameless : ∀ e ∈ line.operand.value?.toList, e.Nameless) {found : Option (List UInt8)}
    (tried : instructionBytes cpu addresses line mode pc = .ok found) :
    found.isSome ↔ ∀ key ∈ line.operand.value?.toList.flatMap Expr.refs, addresses.Has key := by
  -- Without an operand nothing is missing.
  simp only [instructionBytes, except_bind_eq_ok] at tried
  obtain ⟨value, known, tried⟩ := tried
  -- Encoding an operand that is found gives bytes.
  have same : found.isSome = value.isSome := by
    cases value with
    | none =>
      cases tried
      rfl
    | some value =>
      simp only [except_bind_eq_ok, except_pure_eq_ok] at tried
      obtain ⟨bytes, -, rfl⟩ := tried
      rfl
  rw [same]
  unfold operandValue at known
  -- By whether there is an operand.
  cases operand : line.operand.value? with
  | none =>
    simp only [operand] at known
    cases known
    simp
  | some e =>
    -- The operand is found if its expression has a value.
    simp only [operand, except_bind_eq_ok, except_pure_eq_ok] at known
    obtain ⟨inner, evaluated, rfl⟩ := known
    have plain : e.Nameless := nameless e (by simp [operand])
    rw [Option.isSome_map, Addresses.isSome_of_eval plain evaluated]
    simp

/-- Initial contents are found exactly if each symbol in them has an address. -/
theorem isSome_of_dataBytes {var : Variable} {found : Option (List UInt8)}
    (nameless : ∀ e ∈ Stmt.written (.item (.var var)), e.Nameless)
    (tried : dataBytes session addresses var = .ok found) :
    found.isSome ↔
      ∀ key ∈ (Stmt.written (.item (.var var))).flatMap Expr.refs, addresses.Has key := by
  -- Without values nothing is missing.
  unfold dataBytes at tried
  unfold Stmt.written at nameless ⊢
  split at tried
  · rename_i none
    cases tried
    simp [none]
  · rename_i content text
    cases tried
    simp [text]
  · rename_i exprs values
    simp only [values] at nameless ⊢
    simp only [except_bind_eq_ok, except_pure_eq_ok] at tried
    obtain ⟨width, -, inner, evaluated, rfl⟩ := tried
    rw [Option.isSome_map, Addresses.isSome_of_evalAll nameless evaluated]

/-- An item that is tried without an error is completed exactly if each symbol that it needs has an
address. -/
theorem isSome_of_attempt (nameless : ∀ e ∈ item.stmt.written, e.Nameless)
    {found : Option Completion} (tried : item.attempt session addresses = .ok found) :
    found.isSome ↔ ∀ key ∈ item.stmt.refs, addresses.Has key := by
  -- One case for each kind of item; a vector needs its name alone.
  cases item with
  | instruction line mode slot pc =>
    simp only [attempt, except_bind_eq_ok, except_pure_eq_ok] at tried
    obtain ⟨bytes, known, rfl⟩ := tried
    rw [Option.isSome_map, isSome_of_instructionBytes nameless known]
    rfl
  | data var size slot =>
    simp only [attempt, except_bind_eq_ok, except_pure_eq_ok] at tried
    obtain ⟨bytes, known, rfl⟩ := tried
    rw [Option.isSome_map, isSome_of_dataBytes nameless known]
    rfl
  | vector kind name pos =>
    cases tried
    rw [Option.isSome_map]
    simp [stmt, Stmt.refs, Addresses.Has]

/-- An item that is tried without an error waits exactly if some symbol that it needs has no
address. -/
theorem waits_iff (nameless : ∀ e ∈ item.stmt.written, e.Nameless) {found : Option Completion}
    (tried : item.attempt session addresses = .ok found) :
    item.waits session addresses = true ↔ ¬ ∀ key ∈ item.stmt.refs, addresses.Has key := by
  -- An item that is not completed waits.
  rw [← isSome_of_attempt nameless tried]
  unfold waits
  cases found <;> simp [tried]

/-- Trying an item fails for one of its values, or for the width of an element. -/
theorem attempt_fails {sort : Error → Prop} (values : ∀ e, e.OfValue → sort e)
    (sizing : ∀ var size slot exprs, item = .data var size slot →
      var.init.map Initializer.value = some (.values exprs) → FailsOnly sort
        ({ scopes := session.scopes, ns := var.ns, pos := var.pos : View }.sizeOfType var.type))
    (addresses : Addresses) : FailsOnly sort (item.attempt session addresses) := by
  -- One case for each kind of item; a vector does not fail.
  have evaluating : ∀ pos cause, sort (.eval pos cause) := fun pos cause => values _ (.eval pos cause)
  cases item with
  | instruction line mode slot pc =>
    refine FailsOnly.map ?_ _
    refine (operandValue_fails (evaluating _) addresses).bind fun value _ => ?_
    cases value with
    | none => exact .ok _
    | some value =>
      have encoded : FailsOnly sort
          ((session.cpu.encode line.op mode value pc).mapError (.encode line.pos)) :=
        .mapError fun cause _ => values _ (.encode _ cause)
      exact encoded.map _
  | data var size slot =>
    exact (dataBytes_fails (evaluating _) (sizing var size slot · rfl) addresses).map _
  | vector => exact .ok _

/-- Once an item was tried without an error, only its values can fail under other addresses. -/
theorem attempt_ofValue {found : Option Completion} (tried : item.attempt session old = .ok found)
    (new : Addresses) : FailsOnly Error.OfValue (item.attempt session new) := by
  -- The only other error is about the width of an element.
  refine attempt_fails (fun _ => id) (fun var size slot exprs same filled => ?_) new
  subst same
  simp only [attempt, except_bind_eq_ok] at tried
  obtain ⟨bytes, known, -⟩ := tried
  -- The width of an element was known when it was asked for first, and is so again.
  simp only [dataBytes, filled, except_bind_eq_ok] at known
  obtain ⟨width, sized, -⟩ := known
  rw [sized]
  exact .ok width

/-- Trying an item never fails for want of progress. -/
theorem attempt_converges (item : Deferred) (session : Session) (addresses : Addresses) :
    FailsOnly (fun e => e.kind ≠ .convergence) (item.attempt session addresses) := by
  -- Neither an error of a value nor one of a size is about progress.
  refine attempt_fails (fun e ofValue => ?_) (fun var _ _ _ _ _ => ?_) addresses
  · cases ofValue <;> exact nofun
  · exact ((View.fails _).sizeOfType _).mono fun _ ofBinding =>
      (Error.OfBinding.immediate ofBinding).converges

end Deferred

namespace Layout

variable {session : Session} {state state' : Layout} {item : Deferred} {items : List Deferred}

/-! ### One round -/

/-- Completing an item always succeeds, and leaves addresses and what waits. -/
theorem complete_run (completion : Completion) (state : Layout) :
    ∃ state', complete completion state = .ok () state' ∧ state'.pending = state.pending := by
  -- Bytes are written into the banks, a vector goes into the image.
  cases completion with
  | write slot bytes =>
    -- There is nothing to write to if the bank is not there.
    have wrote : ∃ rom, Rom.writeAt slot bytes state.rom = .ok () rom := by
      simp only [Rom.writeAt, bind_eq_ok, get_eq_ok]
      cases found : Entries.get? slot.bank state.rom.banks with
      | none => exact ⟨state.rom, state.rom, state.rom, ⟨rfl, rfl⟩, by simp [found]⟩
      | some bank =>
        exact ⟨_, state.rom, state.rom, ⟨rfl, rfl⟩, by
          simp only [found, Rom.setBank, modify_eq_ok]
          rfl⟩
    obtain ⟨rom, wrote⟩ := wrote
    exact ⟨{ state with rom }, onRom_eq_ok.2 ⟨rom, wrote, rfl⟩, rfl⟩
  | vector kind address => exact ⟨_, modify_eq_ok.2 rfl, rfl⟩

/-- What is done with an item is decided by the attempt alone. -/
theorem retry_eq (item : Deferred) (state : Layout) :
    retry session item state = match item.attempt session state.addresses with
      | .error e => .error e state
      | .ok none => .ok () { state with pending := state.pending ++ [item] }
      | .ok (some completion) => complete completion state := by
  -- What is asked is answered without a look at the banks.
  show EStateM.bind (ask (item.attempt session state.addresses)) _ state = _
  cases item.attempt session state.addresses with
  | error e => rfl
  | ok found => cases found <;> rfl

/-- An item joins those that wait exactly if it has to. -/
theorem retry_pending (ran : retry session item state = .ok () state') :
    (∃ found, item.attempt session state.addresses = .ok found) ∧
      state'.pending = state.pending ++ [item].filter (Deferred.waits session state.addresses) := by
  -- By what the attempt came to.
  rw [retry_eq] at ran
  cases tried : item.attempt session state.addresses with
  | error e => simp [tried] at ran
  | ok found =>
    refine ⟨⟨found, rfl⟩, ?_⟩
    cases found with
    | none =>
      simp only [tried, EStateM.Result.ok.injEq, true_and] at ran
      simp [← ran, Deferred.waits, tried]
    | some completion =>
      -- What is completed does not wait.
      simp only [tried] at ran
      obtain ⟨done, completed, same⟩ := complete_run completion state
      cases completed.symm.trans ran
      simp [same, Deferred.waits, tried]

/-- Trying an item fails only as the attempt does. -/
theorem retry_error {e : Error} (failed : retry session item state = .error e state') :
    item.attempt session state.addresses = .error e := by
  -- Completing an item does not fail, so the attempt did.
  rw [retry_eq] at failed
  cases tried : item.attempt session state.addresses with
  | error cause =>
    simp only [tried, EStateM.Result.error.injEq] at failed
    rw [failed.1]
  | ok found =>
    cases found with
    | none => simp [tried] at failed
    | some completion =>
      simp only [tried] at failed
      obtain ⟨done, completed, -⟩ := complete_run completion state
      cases completed.symm.trans failed

/-- One round leaves what still has to wait, in its order. -/
theorem retryAll_run (ran : retryAll session items state = .ok () state') :
    state'.addresses = state.addresses ∧
      (∀ item ∈ items, ∃ found, item.attempt session state.addresses = .ok found) ∧
      state'.pending = state.pending ++ items.filter (Deferred.waits session state.addresses) := by
  -- Trying an item leaves the addresses, so the next one is tried under the same.
  induction items generalizing state with
  | nil =>
    rw [retryAll, pure_eq_ok] at ran
    simp [← ran.2]
  | cons item others ih =>
    simp only [retryAll, bind_eq_ok] at ran
    obtain ⟨_, middle, tried, ran⟩ := ran
    have same := (retry_rests tried).addresses
    obtain ⟨first, joined⟩ := retry_pending tried
    obtain ⟨addresses, each, pending⟩ := ih ran
    rw [same] at addresses each pending
    refine ⟨addresses, List.forall_mem_cons.2 ⟨first, each⟩, ?_⟩
    rw [pending, joined, List.append_assoc, ← List.filter_append, List.singleton_append]

/-- One round fails only as the attempt at one of the items does. -/
theorem retryAll_error {e : Error} (failed : retryAll session items state = .error e state') :
    ∃ item ∈ items, item.attempt session state.addresses = .error e := by
  -- By induction on the items; what is tried leaves the addresses.
  induction items generalizing state with
  | nil => cases failed
  | cons item others ih =>
    obtain first | ⟨_, middle, tried, rest⟩ := bind_eq_error.1 failed
    · exact ⟨item, List.mem_cons_self, retry_error first⟩
    · obtain ⟨other, inside, cause⟩ := ih rest
      rw [(retry_rests tried).addresses] at cause
      exact ⟨other, List.mem_cons_of_mem _ inside, cause⟩

/-- A round over items that all have to wait makes them wait once more, and does nothing else. -/
theorem retryAll_again (still : ∀ item ∈ items, item.waits session state.addresses = true) :
    retryAll session items state = .ok () { state with pending := state.pending ++ items } := by
  -- By induction on the items, each of which queues up behind those before it.
  induction items generalizing state with
  | nil => rw [retryAll, pure_eq_ok, List.append_nil, and_iff_right rfl]
  | cons item others ih =>
    rw [List.forall_mem_cons] at still
    -- Only an attempt that finds an address missing lets an item wait.
    have first : retry session item state =
        .ok () { state with pending := state.pending ++ [item] } := by
      have waits := still.1
      unfold Deferred.waits at waits
      split at waits
      · rename_i tried
        rw [retry_eq, tried]
      · cases waits
    have rest := @ih { state with pending := state.pending ++ [item] } still.2
    simp only [List.append_assoc, List.singleton_append] at rest
    exact bind_eq_ok.2 ⟨(), _, first, rest⟩

/-! ### All rounds -/

/-- A round is taken if something waits, and the next one if less waits then. -/
theorem settle_succ {count left : Nat} (waiting : state.pending ≠ []) :
    settle session count (left + 1) state =
      match retryAll session state.pending { state with pending := [] } with
      | .error e failed => .error e failed
      | .ok _ middle =>
        if middle.pending.length = state.pending.length then
          .error (.noProgress .layout (count + 1) (middle.pending.map Deferred.located)) middle
        else
          settle session (count + 1) left middle := by
  -- Something waits, so that the round is run and its outcome checked.
  have more : state.pending.isEmpty = false := by simpa using waiting
  show (if state.pending.isEmpty then _ else _ : LayoutStep Unit) state = _
  rw [more]
  show EStateM.bind (retryAll session state.pending) _ { state with pending := [] } = _
  unfold EStateM.bind
  cases retryAll session state.pending { state with pending := [] } with
  | error e failed => rfl
  | ok a middle =>
    show (if middle.pending.length = state.pending.length then _ else _ : LayoutStep Unit) middle =
      if middle.pending.length = state.pending.length then _ else _
    -- The check is made of what the round has left.
    by_cases stuck : middle.pending.length = state.pending.length
    · rw [if_pos stuck, if_pos stuck]
      rfl
    · rw [if_neg stuck, if_neg stuck]

/-- No round is taken if nothing waits. -/
theorem settle_done {count left : Nat} (nothing : state.pending = []) :
    settle session count (left + 1) state = .ok () state := by
  -- The state is looked at, and that is all.
  rw [settle, bind_eq_ok]
  exact ⟨state, state, get_eq_ok.2 ⟨rfl, rfl⟩, by simp [nothing]⟩

/-- If everything has to wait on, the next round is the last one. -/
theorem settle_idle {count left : Nat} (waiting : state.pending ≠ [])
    (still : ∀ item ∈ state.pending, item.waits session state.addresses = true) :
    settle session count (left + 1) state =
      .error (.noProgress .layout (count + 1) (state.pending.map Deferred.located)) state := by
  -- A round over such items leaves as many as there were.
  have again : retryAll session state.pending { state with pending := [] } = .ok () state :=
    retryAll_again still
  rw [settle_succ waiting, again]
  exact if_pos rfl

section FirstRound

variable {middle : Layout}

/-- If the first round completes everything, there is no other. -/
theorem settle_of_completed
    (ran : retryAll session state.pending { state with pending := [] } = .ok () middle)
    (completed : middle.pending = []) (count left : Nat) :
    settle session count (left + 2) state = .ok () middle := by
  -- The rounds stop as soon as nothing waits.
  by_cases waiting : state.pending = []
  · -- A round over nothing leaves the state as it is.
    rw [waiting, retryAll, pure_eq_ok] at ran
    have same : state = middle := by
      rw [← ran.2]
      simp [← waiting]
    rw [settle_done waiting, same]
  · have fewer : middle.pending.length ≠ state.pending.length := by
      intro same
      apply waiting
      rw [completed] at same
      exact List.eq_nil_of_length_eq_zero same.symm
    rw [settle_succ waiting, ran]
    show (if middle.pending.length = state.pending.length then _ else _) = _
    rw [if_neg fewer, settle_done completed]

/-- If the first round leaves something, the rounds end for want of progress, with just that. -/
theorem settle_of_stuck
    (ran : retryAll session state.pending { state with pending := [] } = .ok () middle)
    (stuck : middle.pending ≠ []) (count left : Nat) :
    ∃ rounds, settle session count (left + 2) state =
      .error (.noProgress .layout rounds (middle.pending.map Deferred.located)) middle := by
  -- Something waited, for out of nothing nothing is left.
  obtain ⟨same, -, pending⟩ := retryAll_run ran
  have waiting : state.pending ≠ [] := by
    intro nothing
    apply stuck
    rw [pending, nothing]
    rfl
  rw [settle_succ waiting, ran]
  show ∃ rounds, (if middle.pending.length = state.pending.length then _ else _) = _
  by_cases all : middle.pending.length = state.pending.length
  · exact ⟨count + 1, if_pos all⟩
  · -- What is left is tried once more, under the addresses that did not suffice before.
    have still : ∀ item ∈ middle.pending, item.waits session middle.addresses = true := by
      intro item inside
      rw [pending, List.nil_append] at inside
      rw [same]
      exact (List.mem_filter.1 inside).2
    rw [if_neg all]
    exact ⟨_, settle_idle stuck still⟩

/-- An error of the first round is the error of all. -/
theorem settle_of_error {e : Error}
    (failed : retryAll session state.pending { state with pending := [] } = .error e middle)
    (count left : Nat) : settle session count (left + 1) state = .error e middle := by
  -- Something waited, for a round over nothing does not fail.
  have waiting : state.pending ≠ [] := by
    intro nothing
    rw [nothing] at failed
    cases failed
  rw [settle_succ waiting, failed]

end FirstRound

/-! ### What waits after the walk -/

/-- What waits after a walk over statements, in their order. A statement that does not wait refers only
to symbols that have addresses by then; one that waits was tried before. -/
inductive Waits (session : Session) (addresses : Addresses) : List Stmt → List Deferred → Prop
  | nil : Waits session addresses [] []
  | passed {s : Stmt} {stmts : List Stmt} {items : List Deferred}
    (bound : ∀ key ∈ s.refs, addresses.Has key) (rest : Waits session addresses stmts items) :
    Waits session addresses (s :: stmts) items
  | deferred {item : Deferred} {stmts : List Stmt} {items : List Deferred}
    (tried : ∃ old, item.attempt session old = .ok none)
    (rest : Waits session addresses stmts items) :
    Waits session addresses (item.stmt :: stmts) (item :: items)

namespace Waits

variable {addresses : Addresses} {stmts : List Stmt}

/-- What waits was tried before. -/
theorem tried (waits : Waits session addresses stmts items) :
    ∀ item ∈ items, ∃ old, item.attempt session old = .ok none := by
  -- By induction on the statements: what is deferred was tried on the walk.
  induction waits with
  | nil =>
    intro item inside
    cases inside
  | passed _ _ ih => exact ih
  | deferred tried _ ih => exact List.forall_mem_cons.2 ⟨tried, ih⟩

/-- What waits comes from the statements. -/
theorem mem_stmts (waits : Waits session addresses stmts items) :
    ∀ item ∈ items, item.stmt ∈ stmts := by
  -- By induction on the statements.
  induction waits with
  | nil =>
    intro item inside
    cases inside
  | passed _ _ ih => exact fun item inside => List.mem_cons_of_mem _ (ih item inside)
  | deferred _ _ ih =>
    rw [List.forall_mem_cons]
    exact ⟨List.mem_cons_self, fun item inside => List.mem_cons_of_mem _ (ih item inside)⟩

/-- The statements that refer to a symbol without an address all wait, in their order. -/
theorem map_filter (waits : Waits session addresses stmts items) {test : Stmt → Bool}
    (lacks : ∀ s, test s = true → ¬ ∀ key ∈ s.refs, addresses.Has key) :
    (items.filter fun item => test item.stmt).map Deferred.stmt = stmts.filter test := by
  -- By induction on the statements: one that was passed has all its addresses.
  induction waits with
  | nil => rfl
  | @passed s stmts items bound _ ih =>
    have fails : test s = false := by
      cases tested : test s with
      | false => rfl
      | true => exact absurd bound (lacks s tested)
    rw [ih, List.filter_cons_of_neg (by simp [fails])]
  | @deferred item stmts items _ _ ih =>
    cases tested : test item.stmt with
    | false => rw [List.filter_cons_of_neg (by simp [tested]), ih,
        List.filter_cons_of_neg (by simp [tested])]
    | true => rw [List.filter_cons_of_pos (by simp [tested]), List.map_cons, ih,
        List.filter_cons_of_pos tested]

end Waits

/-- An item that is tried is completed, and all that it needs has an address, or joins those that
wait. -/
theorem retry_waits (nameless : ∀ e ∈ item.stmt.written, e.Nameless)
    (ran : retry session item state = .ok () state') :
    (state'.pending = state.pending ∧ ∀ key ∈ item.stmt.refs, state'.addresses.Has key) ∨
      (state'.pending = state.pending ++ [item] ∧ ∃ old, item.attempt session old = .ok none) := by
  -- The addresses stay, so that what was missing then is missing still.
  obtain ⟨⟨found, tried⟩, pending⟩ := retry_pending ran
  rw [(retry_rests ran).addresses]
  cases found with
  | none =>
    right
    refine ⟨?_, _, tried⟩
    rw [pending, List.filter_cons_of_pos (by simp [Deferred.waits, tried]), List.filter_nil]
  | some completion =>
    left
    refine ⟨?_, (Deferred.isSome_of_attempt nameless tried).1 rfl⟩
    rw [pending, List.filter_cons_of_neg (by simp [Deferred.waits, tried]), List.filter_nil,
      List.append_nil]

/-- How a statement is run. Nothing is tried, or just one item is, behind steps that leave vectors and
what waits, and that bind no name but the statement's. -/
inductive Tries (session : Session) (s : Stmt) (state state' : Layout) : Prop
  | nothing (needless : s.refs = []) (pending : state'.pending = state.pending)
    (vectors : state'.vectors = state.vectors)
  | item (item : Deferred) (between : Layout) (ran : retry session item between = .ok () state')
    (same : item.stmt = s) (pending : between.pending = state.pending)
    (vectors : between.vectors = state.vectors)
    (addresses : s.bound? = none → between.addresses = state.addresses)

/-- Each statement of the walk is run in one of the two ways. -/
theorem Step.tries {s : Stmt} (step : Step session state s state') : Tries session s state state' := by
  -- One case for each kind of step; most of them need no address.
  cases step with
  | begin | finish | label | incbin | openWindow | closeWindow => exact .nothing rfl rfl rfl
  | fixed plain | free plain =>
    -- Without initial contents there is nothing that needs an address.
    have bare := Option.not_isSome_iff_eq_none.1 plain
    exact .nothing (by simp [Stmt.refs, Stmt.written, bare]) rfl rfl
  | @request d pos _ _ requested _ =>
    have needless : (Stmt.item (.directive d pos)).refs = [] := by
      cases d <;> first | rfl | cases requested
    exact .nothing needless rfl rfl
  | instruction _ _ _ tried => exact .item _ _ tried rfl rfl rfl fun _ => rfl
  | filled _ _ _ _ _ tried =>
    -- The contents are tried when the name is bound already.
    exact .item _ _ tried rfl rfl rfl nofun
  | vector tried => exact .item _ state tried rfl rfl rfl fun _ => rfl

/-- After the walk each statement is completed or waits. -/
theorem walk_waits {stmts : List Stmt} (nameless : ∀ s ∈ stmts, ∀ e ∈ s.written, e.Nameless)
    (ran : walk session stmts state = .ok () state') :
    ∃ items, state'.pending = state.pending ++ items ∧
      Waits session state'.addresses stmts items := by
  -- By induction on the statements, with one step for each.
  induction stmts generalizing state with
  | nil =>
    -- No statement waits.
    rw [walk, pure_eq_ok] at ran
    exact ⟨[], by simp [← ran.2], .nil⟩
  | cons first others ih =>
    rw [List.forall_mem_cons] at nameless
    simp only [walk, bind_eq_ok] at ran
    obtain ⟨_, next, stepped, ran⟩ := ran
    obtain ⟨items, pending, waits⟩ := ih nameless.2 ran
    -- What has an address behind the first statement has one at the end.
    have kept : ∀ key, next.addresses.Has key → state'.addresses.Has key := fun key has =>
      (walk_names ran key).2 (.inl has)
    cases (stmt_step stepped).tries with
    | nothing needless same _ =>
      -- A statement that needs no name is passed.
      refine ⟨items, same ▸ pending, .passed ?_ waits⟩
      rw [needless]
      exact fun _ inside => absurd inside List.not_mem_nil
    | item item between tried from_ before _ _ =>
      -- One that is tried is completed, or joins those that wait.
      subst from_
      obtain ⟨same, bound⟩ | ⟨joined, failed⟩ := retry_waits nameless.1 tried
      · exact ⟨items, by rw [pending, same, before],
          .passed (fun key needed => kept key (bound key needed)) waits⟩
      · refine ⟨item :: items, ?_, .deferred failed waits⟩
        rw [pending, joined, before, List.append_assoc, List.singleton_append]

/-! ### Errors for want of progress -/

/-- Trying items never fails for want of progress, nor does anything else that is met at once. -/
theorem suits_any (session : Session) :
    Suits session (fun _ => True) fun e => e.kind ≠ .convergence :=
  ⟨fun _ => Error.Immediate.converges, fun item _ => item.attempt_converges session⟩

/-- No statement of the walk fails for want of progress. -/
theorem stmt_converges (session : Session) (s : Stmt) :
    Keeps (fun _ => True) (fun e => e.kind ≠ .convergence) (stmt session s) := by
  -- What is checked of a statement on the walk is its structure, its values and its place.
  have suits := suits_any session
  -- What has no mode or no size, or is not flat, is an error of structure.
  have structural : ∀ pos text, (Error.unstructured pos text).kind ≠ .convergence := by
    intro pos text same
    cases same
  unfold stmt
  split
  · -- Labels bind names; instructions and variables have a mode and a size, or are refused before.
    exact label_keeps suits _
  · rename_i line
    cases chosen : line.mode with
    | none =>
      simp only [instruction, chosen]
      exact .throw (structural _ _)
    | some mode => exact instruction_keeps suits chosen fun _ _ => trivial
  · rename_i var
    cases sized : var.size with
    | none =>
      simp only [variableOf, sized]
      exact .throw (structural _ _)
    | some size => exact variableOf_keeps suits sized fun _ => trivial
  · exact directive_keeps suits _ _ fun _ _ => trivial
  · -- A declaration of a type or a function does nothing here, and nothing else is flat.
    exact .pure _
  · exact .pure _
  · exact .throw (structural _ _)

/-- If layout fails for want of progress, it does so behind a first round that leaves something, and
names just that. -/
theorem layout_stuck {stmts : List Stmt} {e : Error} (failed : layout session stmts = .error e)
    (stuck : e.kind = .convergence) :
    ∃ walked rom middle rounds, walk session stmts {} = .ok () walked ∧
      Rom.closeAll {} walked.rom = .ok () rom ∧
      retryAll session walked.pending { walked with rom, pending := [] } = .ok () middle ∧
      e = .noProgress .layout rounds (middle.pending.map Deferred.located) := by
  -- The run ends in the walk, in the closing of regions, or in the rounds.
  have nothing : Waiting (fun _ => True) {} := fun _ _ => trivial
  unfold layout at failed
  split at failed
  · cases failed
  · rename_i cause last ran
    cases failed
    have walking := walk_keeps fun s (_ : s ∈ stmts) => stmt_converges session s
    -- Neither the walk nor the closing of regions fails so.
    obtain walkFailed | ⟨_, walked, walk, ran⟩ := bind_eq_error.1 ran
    · exact absurd stuck (walking.fails nothing walkFailed).2
    have closing := onRom_keeps (suits_any session) (Rom.closeAll_immediate {})
    obtain closeFailed | ⟨_, closed, close, ran⟩ := bind_eq_error.1 ran
    · exact absurd stuck (closing.fails (walking.kept nothing walk) closeFailed).2
    obtain ⟨rom, closes, rfl⟩ := onRom_eq_ok.1 close
    refine ⟨walked, rom, ?_⟩
    cases round : retryAll session walked.pending { walked with rom, pending := [] } with
    | error other failed =>
      -- The first round fails only where an attempt does.
      cases (settle_of_error round 1 14).symm.trans ran
      obtain ⟨item, -, attempt⟩ := retryAll_error round
      exact absurd stuck (item.attempt_converges session _ _ attempt)
    | ok _ middle =>
      by_cases completed : middle.pending = []
      · cases (settle_of_completed round completed 1 13).symm.trans ran
      · obtain ⟨rounds, ends⟩ : ∃ rounds, settle session 1 15 { walked with rom } =
            .error (.noProgress .layout rounds (middle.pending.map Deferred.located)) middle :=
          settle_of_stuck round completed 1 13
        cases ends.symm.trans ran
        exact ⟨_, rounds, walk, closes, rfl, rfl⟩

/-- If layout succeeds, it does so with what the first round leaves, which completes everything. -/
theorem layout_completed {stmts : List Stmt} {image : Image}
    (returned : layout session stmts = .ok image) :
    ∃ walked rom last, walk session stmts {} = .ok () walked ∧
      retryAll session walked.pending { walked with rom, pending := [] } = .ok () last ∧
      last.pending = [] ∧ last.image = image := by
  -- A first round that fails or leaves something does not make an image.
  obtain ⟨last, ran, rfl⟩ := layout_eq_ok.1 returned
  simp only [run, bind_eq_ok, onRom_eq_ok] at ran
  obtain ⟨_, walked, walk, _, _, ⟨rom, -, rfl⟩, settled⟩ := ran
  cases round : retryAll session walked.pending { walked with rom, pending := [] } with
  | error e failed => cases (settle_of_error round 1 14).symm.trans settled
  | ok _ middle =>
    by_cases completed : middle.pending = []
    · cases (settle_of_completed round completed 1 13).symm.trans settled
      exact ⟨walked, rom, _, walk, round, completed, rfl⟩
    · obtain ⟨rounds, ends⟩ : ∃ rounds, settle session 1 15 { walked with rom } =
          .error (.noProgress .layout rounds (middle.pending.map Deferred.located)) middle :=
        settle_of_stuck round completed 1 13
      cases ends.symm.trans settled

/-! ### One round is enough -/

section OneRound

variable {stmts : List Stmt} {walked middle : Layout} {rom : Rom}

/-- The first round leaves just those of the items that need a name that no statement binds. -/
theorem round_pending (nameless : ∀ s ∈ stmts, ∀ e ∈ s.written, e.Nameless)
    (walk : walk session stmts {} = .ok () walked)
    (round : retryAll session walked.pending { walked with rom, pending := [] } = .ok () middle) :
    middle.pending = walked.pending.filter fun item => item.stmt.dangles stmts := by
  -- All that waits was deferred on the walk, and is tried with all addresses of the walk.
  obtain ⟨items, pending, waits⟩ := walk_waits nameless walk
  obtain ⟨-, each, left⟩ := retryAll_run round
  rw [left, List.nil_append]
  refine List.filter_congr fun item inside => ?_
  -- An item waits if a name that it needs has no address, so if no statement binds the name.
  obtain ⟨found, tried⟩ := each item inside
  have plain : ∀ e ∈ item.stmt.written, e.Nameless := by
    apply nameless
    apply waits.mem_stmts
    simpa [pending] using inside
  rw [Bool.eq_iff_iff, Deferred.waits_iff plain tried, Stmt.dangles, List.any_eq_true]
  simp [walk_names_start walk]

/-- What waits and needs a name that no statement binds are just the statements that do, in their
order. -/
theorem pending_dangles (nameless : ∀ s ∈ stmts, ∀ e ∈ s.written, e.Nameless)
    (walk : walk session stmts {} = .ok () walked) :
    (walked.pending.filter fun item => item.stmt.dangles stmts).map Deferred.stmt =
      stmts.filter (Stmt.dangles stmts) := by
  -- What waits comes from the statements in their order.
  obtain ⟨items, pending, waits⟩ := walk_waits nameless walk
  have all : walked.pending = items := pending
  rw [all]
  refine waits.map_filter fun s dangles bound => ?_
  -- Some name that is needed is bound by no statement, so it has no address.
  obtain ⟨key, needed, unbound⟩ := List.any_eq_true.1 dangles
  exact of_decide_eq_true unbound ((walk_names_start walk key).1 (bound key needed))

/-- If every name that is needed has an address after the walk, the first round completes everything,
or fails for the value of an item. -/
theorem round_completes (nameless : ∀ s ∈ stmts, ∀ e ∈ s.written, e.Nameless)
    (walk : walk session stmts {} = .ok () walked)
    (bound : ∀ item ∈ walked.pending, ∀ key ∈ item.stmt.refs, walked.addresses.Has key) :
    (∃ last, retryAll session walked.pending { walked with rom, pending := [] } = .ok () last ∧
        last.pending = []) ∨
      ∃ e failed, retryAll session walked.pending { walked with rom, pending := [] } =
        .error e failed ∧ e.OfValue := by
  -- The round runs through, or fails on one of the items.
  obtain ⟨items, pending, waits⟩ := walk_waits nameless walk
  have all : walked.pending = items := pending
  cases round : retryAll session walked.pending { walked with rom, pending := [] } with
  | error e failed =>
    right
    -- The item was tried on the walk already, without an error.
    obtain ⟨item, inside, attempt⟩ := retryAll_error round
    obtain ⟨old, tried⟩ := waits.tried item (all ▸ inside)
    exact ⟨e, failed, rfl, Deferred.attempt_ofValue tried _ e attempt⟩
  | ok _ last =>
    left
    refine ⟨last, rfl, ?_⟩
    rw [round_pending nameless walk round, List.filter_eq_nil_iff]
    intro item inside dangles
    obtain ⟨key, needed, unbound⟩ := List.any_eq_true.1 dangles
    exact of_decide_eq_true unbound ((walk_names_start walk key).1 (bound item inside key needed))

end OneRound

end Layout

/-- Layout of what resolving gives converges in one round. It never fails for too many rounds. If every
name that something waits for has an address after the walk, the first round completes all of it, unless
a value cannot be computed or encoded, which is the error then. And if layout fails for want of
progress, it is stuck on just those of the items that wait, in the order of the statements, that need a
name that no statement binds. -/
theorem layout_converges {stmts flat : List Stmt} {session session' : Session}
    (resolved : resolve stmts session = .ok flat session') (target : Session) :
    (∀ stage rounds, layout target flat ≠ .error (.tooManyRounds stage rounds)) ∧
    (∀ walked rom, Layout.walk target flat {} = .ok () walked →
      Rom.closeAll {} walked.rom = .ok () rom →
      (∀ item ∈ walked.pending, ∀ key ∈ item.stmt.refs, walked.addresses.Has key) →
      (∃ last, Layout.retryAll target walked.pending { walked with rom, pending := [] } =
          .ok () last ∧ last.pending = [] ∧ layout target flat = .ok last.image) ∨
        ∃ e failed, Layout.retryAll target walked.pending { walked with rom, pending := [] } =
          .error e failed ∧ e.OfValue ∧ layout target flat = .error e) ∧
    ∀ stage rounds stuck, layout target flat = .error (.noProgress stage rounds stuck) →
      ∃ walked, Layout.walk target flat {} = .ok () walked ∧
        stuck = (walked.pending.filter fun item => item.stmt.dangles flat).map Deferred.located ∧
        (walked.pending.filter fun item => item.stmt.dangles flat).map Deferred.stmt =
          flat.filter (Stmt.dangles flat) := by
  -- No name is left in what is resolved, so that only addresses can be missing.
  have nameless : ∀ s ∈ flat, ∀ e ∈ s.written, e.Nameless := fun s inside =>
    (Resolve.roundsFrom_stay resolved s inside).encodable.nameless
  refine ⟨fun stage rounds failed => ?_, fun walked rom walk closes bound => ?_,
    fun stage rounds stuck failed => ?_⟩
  · -- Too many rounds would be another error.
    obtain ⟨walked, rom, middle, _, -, -, -, other⟩ := Layout.layout_stuck failed rfl
    cases other
  · -- After the walk and the closing of regions, layout ends as the first round does.
    have runs : ∀ result, Layout.settle target 1 15 { walked with rom } = result →
        Layout.run target flat {} = result := by
      intro result settled
      show EStateM.bind (Layout.walk target flat) _ {} = _
      rw [EStateM.bind, walk]
      show EStateM.bind (Layout.onRom (Rom.closeAll {})) _ walked = _
      rw [EStateM.bind, Layout.onRom_eq_ok.2 ⟨rom, closes, rfl⟩]
      exact settled
    obtain ⟨last, round, completed⟩ | ⟨e, failed, round, ofValue⟩ :=
      Layout.round_completes nameless walk bound
    · refine .inl ⟨last, round, completed, Layout.layout_eq_ok.2 ⟨last, ?_, rfl⟩⟩
      exact runs _ (Layout.settle_of_completed round completed 1 13)
    · refine .inr ⟨e, failed, round, ofValue, ?_⟩
      rw [layout, runs _ (Layout.settle_of_error round 1 14)]
  · -- What is named are the items that were left after a round without progress.
    obtain ⟨walked, rom, middle, _, walk, -, round, same⟩ := Layout.layout_stuck failed rfl
    obtain ⟨-, -, rfl⟩ := Error.noProgress.inj same
    refine ⟨walked, walk, ?_, Layout.pending_dangles nameless walk⟩
    rw [Layout.round_pending nameless walk round]

/-- A vector to a name, in front of the one label there is. -/
def vectorTo (name : String) : List Stmt :=
  [.item (.directive (.romOrg 0x8000 none) default), .item (.directive (.vector .irq name) default),
    .item (.label ⟨"start", default⟩)]

/-- A vector to the label is completed in the first round, and one to another name is what layout is
stuck on. -/
theorem vectorTo_converges :
    (∃ flat session', ∃ last : Layout,
      resolve (vectorTo "start") { cpu := .nmos } = .ok flat session' ∧ last.pending = [] ∧
        layout session' flat = .ok last.image) ∧
    ∃ flat session' stuck, resolve (vectorTo "nothing") { cpu := .nmos } = .ok flat session' ∧
      layout session' flat = .error (.noProgress .layout 2 stuck) ∧
      stuck = [":1:1: #interrupt.irq nothing"] ∧
      ∃ walked : Layout, stuck =
        (walked.pending.filter fun item => item.stmt.dangles flat).map Deferred.located := by
  -- Both parts evaluate the walk and its first round.
  constructor
  · -- The walk, the closing and the rounds for the label are computed.
    have evaluated : succeedsWith (fun flat session' =>
        succeedsWith (fun _ walked =>
          succeedsWith (fun _ _ => (layout session' flat).toBool) (Rom.closeAll {} walked.rom) &&
            walked.pending.all fun item =>
              item.stmt.refs.all fun key => decide (walked.addresses.Has key))
          (Layout.walk session' flat {}))
        (resolve (vectorTo "start") { cpu := .nmos }) = true := by
      decide +kernel
    obtain ⟨flat, session', resolved, evaluated⟩ := exists_of_succeedsWith evaluated
    obtain ⟨_, walked, walk, evaluated⟩ := exists_of_succeedsWith evaluated
    obtain ⟨closes, bound⟩ := Bool.and_eq_true_iff.1 evaluated
    obtain ⟨_, rom, closes, succeeds⟩ := exists_of_succeedsWith closes
    simp only [List.all_eq_true, decide_eq_true_eq] at bound
    -- Of the two ways for the first round to end, the failure is excluded.
    obtain ⟨last, -, completed, laid⟩ | ⟨e, _, -, -, failed⟩ :=
      (layout_converges resolved session').2.1 walked rom walk closes bound
    · exact ⟨flat, session', last, resolved, completed, laid⟩
    · rw [failed] at succeeds
      cases succeeds
  · -- So are those for the other name.
    have evaluated : succeedsWith (fun flat session' =>
        match layout session' flat with
        | .ok _ => false
        | .error e => e == .noProgress .layout 2 [":1:1: #interrupt.irq nothing"])
        (resolve (vectorTo "nothing") { cpu := .nmos }) = true := by
      decide +kernel
    obtain ⟨flat, session', resolved, evaluated⟩ := exists_of_succeedsWith evaluated
    split at evaluated
    · cases evaluated
    · rename_i e failed
      obtain rfl := beq_iff_eq.1 evaluated
      obtain ⟨walked, -, named, -⟩ := (layout_converges resolved session').2.2 _ _ _ failed
      exact ⟨flat, session', _, resolved, failed, rfl, walked, named⟩

end CrossAsm
