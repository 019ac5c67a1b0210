import CrossAsm.Layout
import CrossAsm.Proofs.Resolve.Following

/-! Layout in two sessions: what is laid out in a session is laid out as the same image in one that
follows it. -/

namespace CrossAsm

namespace Deferred

variable {s t : Session} {addresses : Addresses}

/-- An instruction has the same bytes. -/
theorem instructionBytes_follows (follows : s.Follows t) {line : Instruction} {mode : Mode}
    {pc : UInt16} {bytes : Option (List UInt8)}
    (ran : instructionBytes s.cpu addresses line mode pc = .ok bytes) :
    instructionBytes t.cpu addresses line mode pc = .ok bytes := by
  -- The value is that of the addresses, which are the same; only the opcode is asked of the
  -- session.
  rw [instructionBytes, except_bind_eq_ok] at ran ⊢
  obtain ⟨value, known, ran⟩ := ran
  refine ⟨value, known, ?_⟩
  cases value with
  | none => exact ran
  | some value =>
    rw [except_bind_eq_ok] at ran ⊢
    obtain ⟨bytes, encoded, ran⟩ := ran
    exact ⟨bytes, mapError_eq_ok.2 (follows.cpu.encode (mapError_eq_ok.1 encoded)), ran⟩

/-- A variable has the same initial contents. -/
theorem dataBytes_follows (follows : s.Follows t) (addresses : Addresses) (var : Variable) :
    dataBytes t addresses var = dataBytes s addresses var := by
  -- Without values there is nothing to ask the session for.
  unfold dataBytes
  split
  · rfl
  · rfl
  · -- The width of an element is that of its type.
    have same : (Resolve.viewOf s var.ns var.pos).scopes.Matches t.scopes := follows.scopes
    have width : View.sizeOfType { scopes := t.scopes, ns := var.ns, pos := var.pos } var.type =
        View.sizeOfType { scopes := s.scopes, ns := var.ns, pos := var.pos } var.type :=
      View.sizeOfType_onto same var.type
    simp only [width]

/-- What completes an item completes it in both sessions. -/
theorem attempt_follows (follows : s.Follows t) {item : Deferred} {completion : Option Completion}
    (ran : item.attempt s addresses = .ok completion) :
    item.attempt t addresses = .ok completion := by
  -- One case for each kind of item.
  cases item with
  | instruction line mode slot pc =>
    rw [attempt, except_bind_eq_ok] at ran ⊢
    obtain ⟨bytes, made, ran⟩ := ran
    exact ⟨bytes, instructionBytes_follows follows made, ran⟩
  | data var size slot =>
    rw [attempt, dataBytes_follows follows]
    exact ran
  | vector kind name pos => exact ran

end Deferred

namespace Layout

variable {α β : Type}

/-- A step that succeeds wherever another one does, in the same way. -/
def Carries (m n : LayoutStep α) : Prop :=
  InStep Eq m n

variable {s t : Session}

/-- No directive asks the session for anything. -/
theorem directive_eq (s t : Session) (d : Directive) (pos : Pos) :
    directive s d pos = directive t d pos := by
  cases d <;> rfl

variable (follows : s.Follows t)

include follows

/-- An item is completed in the same way, or waits. -/
theorem retry_carries (item : Deferred) : Carries (retry s item) (retry t item) := by
  -- The addresses are read from the state, which both sides share.
  refine .after _ fun state => ?_
  refine InStep.bind ?_ fun _ => .refl _
  rintro state' _ rfl completion after ran
  -- Only what completes the item is asked of the session.
  cases attempted : item.attempt s state.addresses with
  | error e =>
    rw [attempted] at ran
    cases ran
  | ok found =>
    rw [attempted] at ran
    rw [Deferred.attempt_follows follows attempted]
    exact ⟨after, ran, rfl⟩

/-- An instruction takes the same place. -/
theorem instruction_carries (line : Instruction) :
    Carries (instruction s line) (instruction t line) := by
  -- The place is taken without the session, and then the item is tried.
  unfold instruction
  split
  · exact .refl _
  · exact .after _ fun _ => retry_carries follows _

/-- A variable takes the same place. -/
theorem variableOf_carries (var : Variable) : Carries (variableOf s var) (variableOf t var) := by
  -- Only a variable with contents leaves an item that asks the session.
  unfold variableOf
  split
  · exact .refl _
  · split
    · refine .after _ fun _ => .after _ fun _ => .after _ fun _ => ?_
      -- Whether the contents can be held does not depend on the session.
      split
      · exact .refl _
      · exact retry_carries follows _
    · exact .refl _

/-- A statement does the same. -/
theorem stmt_carries (stmt : Stmt) : Carries (Layout.stmt s stmt) (Layout.stmt t stmt) := by
  -- Statement by statement; marks and labels ask the session for nothing.
  unfold Layout.stmt
  split
  · exact .refl _
  · exact instruction_carries follows _
  · exact variableOf_carries follows _
  · rw [directive_eq s t]
    exact .refl _
  all_goals exact .refl _

/-- The walk goes the same way. -/
theorem walk_carries (stmts : List Stmt) : Carries (walk s stmts) (walk t stmts) := by
  -- By induction on the statements.
  induction stmts with
  | nil => exact .refl _
  | cons first others ih => exact (stmt_carries follows first).bind fun _ => ih

/-- Items are tried in the same way. -/
theorem retryAll_carries (items : List Deferred) :
    Carries (retryAll s items) (retryAll t items) := by
  -- By induction on the items.
  induction items with
  | nil => exact .refl _
  | cons item others ih => exact (retry_carries follows item).bind fun _ => ih

/-- What waits is settled in the same rounds. -/
theorem settle_carries (count left : Nat) :
    Carries (settle s count left) (settle t count left) := by
  -- By induction on the rounds that are left.
  induction left generalizing count with
  | zero => exact .refl _
  | succ left ih =>
    refine .after _ fun state => ?_
    simp only
    split
    · exact .refl _
    · refine .after _ fun _ => (retryAll_carries follows _).bind fun _ => .after _ fun _ => ?_
      split
      · exact .refl _
      · exact ih (count + 1)

/-- The whole of layout runs in the same way. -/
theorem run_carries (stmts : List Stmt) : Carries (run s stmts) (run t stmts) :=
  (walk_carries follows stmts).bind fun _ => .after _ fun _ => settle_carries follows _ _

end Layout

/-- What is laid out is laid out as the same image. -/
theorem layout_follows {s t : Session} (follows : s.Follows t) {stmts : List Stmt} {image : Image}
    (laid : layout s stmts = .ok image) : layout t stmts = .ok image := by
  -- Only a run that succeeds makes an image.
  unfold layout at laid ⊢
  cases ran : Layout.run s stmts {} with
  | error e state =>
    rw [ran] at laid
    cases laid
  | ok _ state =>
    obtain ⟨_, ran', rfl⟩ := Layout.run_carries follows stmts rfl ran
    rw [ran] at laid
    rw [ran']
    exact laid

end CrossAsm
