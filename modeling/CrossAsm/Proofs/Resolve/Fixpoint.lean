import CrossAsm.Proofs.Resolve.Turns

/-! The last round. It leaves nothing unresolved, and so it has not touched the session and has left
only statements that every further round leaves alone: resolving what is resolved changes nothing. -/

namespace CrossAsm

namespace Resolve

variable {session session' after : Session} {s : Stmt} {stmts flat : List Stmt}
  {out next : Outcome} {count left : Nat}

/-- A statement that a round leaves as it is, with nothing unresolved in it and the session the
same. -/
def Stays (session : Session) (s : Stmt) : Prop :=
  stmt s session = .ok ⟨[s], 0⟩ session

/-- A turn that leaves nothing unresolved leaves the session, and statements that stay. -/
theorem Turn.finished (turn : Turn session s out after) (done : out.unresolved = 0) :
    after = session ∧ ∀ x ∈ out.stmts, Stays session x := by
  -- By the turn; what was expanded or lowered is counted as unresolved.
  cases turn with
  | dropped => exact ⟨rfl, nofun⟩
  | kept _ again =>
    obtain rfl := done
    exact ⟨rfl, fun x inside => List.mem_singleton.1 inside ▸ again⟩
  | waits | called | returned => cases done
  | expanded =>
    -- Only an inline function without statements leaves nothing unresolved.
    rw [Outcome.replaced, List.length_eq_zero_iff] at done
    exact ⟨rfl, by simp [Outcome.replaced, done]⟩
  | subroutine subroutine ran =>
    -- Code that is emitted has a label in it, and every statement of it counts.
    obtain ⟨-, l, inside⟩ := Lowering.function_emits subroutine ran
    rw [List.length_eq_zero_iff.1 done] at inside
    cases inside
  | conditional ran =>
    obtain ⟨-, -, l, inside⟩ := Lowering.conditional_emits ran
    rw [List.length_eq_zero_iff.1 done] at inside
    cases inside

/-- A round that leaves nothing unresolved leaves the session, and statements that stay. -/
theorem round_finished (ran : round stmts session = .ok next after)
    (done : next.unresolved = 0) : after = session ∧ ∀ x ∈ next.stmts, Stays session x := by
  -- What is unresolved is summed up, so each turn leaves nothing.
  induction stmts generalizing session next with
  | nil =>
    rw [round, pure_eq_ok] at ran
    obtain ⟨rfl, rfl⟩ := ran
    exact ⟨rfl, List.forall_mem_nil _⟩
  | cons first others ih =>
    simp only [round, bind_eq_ok, pure_eq_ok] at ran
    obtain ⟨here, middle, stepped, rest, _, ran, rfl, rfl⟩ := ran
    obtain ⟨hereDone, restDone⟩ : here.unresolved = 0 ∧ rest.unresolved = 0 := by
      simpa using done
    obtain ⟨rfl, early⟩ := (stmt_turn stepped).finished hereDone
    obtain ⟨same, late⟩ := ih ran restDone
    refine ⟨same, fun x inside => ?_⟩
    exact (List.mem_append.1 inside).elim (early x) (late x)

/-- A round over statements that stay leaves them all. -/
theorem round_of_stay (stay : ∀ s ∈ stmts, Stays session s) :
    round stmts session = .ok ⟨stmts, 0⟩ session := by
  -- By induction on the statements.
  induction stmts with
  | nil => rfl
  | cons first others ih =>
    rw [List.forall_mem_cons] at stay
    simp only [round, bind_eq_ok, pure_eq_ok]
    exact ⟨_, _, stay.1, _, _, ih stay.2, rfl, rfl⟩

/-- What is there at the end of all rounds stays in the session at their end. -/
theorem roundsFrom_stay (ran : roundsFrom count left stmts session = .ok flat session') :
    ∀ s ∈ flat, Stays session' s := by
  -- The last round is the one that leaves nothing unresolved.
  induction left generalizing count stmts session with
  | zero => simp [roundsFrom] at ran
  | succ left ih =>
    obtain ⟨next, middle, first, ⟨done, rfl, rfl, -⟩ | ⟨ran, -⟩⟩ := roundsFrom_succ ran
    · obtain ⟨rfl, stay⟩ := round_finished first done
      exact stay
    · exact ih ran

/-- Statements that stay are resolved in a single round. -/
theorem roundsFrom_of_stay (stay : ∀ s ∈ stmts, Stays session s) :
    roundsFrom count (left + 1) stmts session = .ok stmts session :=
  (roundsFrom_ok (round_of_stay stay)).trans (if_pos rfl)

end Resolve

/-- Resolving is idempotent: what it gives is given once more in the session it leaves, and that
session stays as it is. -/
theorem resolve_again {stmts flat : List Stmt} {session session' : Session}
    (ran : resolve stmts session = .ok flat session') :
    resolve flat session' = .ok flat session' :=
  Resolve.roundsFrom_of_stay (Resolve.roundsFrom_stay ran)

/-- An instruction that is run only if the zero flag is set. -/
def skipping : List Stmt :=
  let inx : Instruction := .unresolved .inx .none .global default
  [.conditional
    { form := .ifThen
      first := { clause := ⟨.ifTest ⟨.near, .is, .zero⟩, default⟩,
                 body := [.item (.instruction inx)] }
      ns := .global }]

/-- The branch, the instruction and a label that is minted. -/
theorem skipping_resolved :
    ∃ flat session', resolve skipping { cpu := .nmos } = .ok flat session' ∧
      flat.length = 3 ∧ session'.labels = 1 := by
  -- The rounds are evaluated, and the two numbers compared.
  have evaluated : (match resolve skipping { cpu := .nmos } with
      | .ok flat session' => flat.length == 3 && session'.labels == 1
      | .error .. => false) = true := by
    decide +kernel
  cases ran : resolve skipping { cpu := .nmos } with
  | error e session' => simp [ran] at evaluated
  | ok flat session' =>
    rw [ran] at evaluated
    exact ⟨flat, session', rfl, by simpa using evaluated⟩

/-- Resolving once more mints no other label. -/
theorem skipping_again :
    ∃ flat session', resolve skipping { cpu := .nmos } = .ok flat session' ∧
      session'.labels = 1 ∧ resolve flat session' = .ok flat session' := by
  -- The first run ends with one label, and a second one changes nothing.
  obtain ⟨flat, session', ran, -, labels⟩ := skipping_resolved
  exact ⟨flat, session', ran, labels, resolve_again ran⟩

end CrossAsm
