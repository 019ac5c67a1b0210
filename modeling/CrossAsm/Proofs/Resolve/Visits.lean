import CrossAsm.Proofs.Binding.Settled
import CrossAsm.Proofs.Resolve.Sessions

/-! The rounds of resolving, statement by statement: which statements are met with which session,
and what lasts from a round to the end. -/

namespace CrossAsm

namespace Resolve

/-- The statements of a round, each with the session it finds. -/
def roundVisits : List Stmt → Session → List (Session × Stmt)
  | [], _ => []
  | first :: others, session =>
    (session, first) :: match stmt first session with
      | .ok _ next => roundVisits others next
      | .error .. => []

/-- The statements of all rounds that are left, each with the session it finds. -/
def visitsFrom : Nat → List Stmt → Session → List (Session × Stmt)
  | 0, _, _ => []
  | left + 1, stmts, session =>
    roundVisits stmts session ++ match round stmts session with
      | .ok next session' =>
        if next.unresolved = 0 then [] else visitsFrom left next.stmts session'
      | .error .. => []

/-- The statements that are met while a list is resolved, each with the session it finds. -/
def visits (stmts : List Stmt) (session : Session) : List (Session × Stmt) :=
  visitsFrom maxRounds stmts session

variable {stmts flat : List Stmt} {session session' middle last before after : Session} {s : Stmt}
  {next out : Outcome} {count left : Nat}

/-! ### One round -/

/-- Every statement of a round that succeeds is met in it. -/
theorem exists_roundVisit (ran : round stmts session = .ok next session') (inside : s ∈ stmts) :
    ∃ before, (before, s) ∈ roundVisits stmts session := by
  -- By induction on the statements; the session moves on with each of them.
  induction stmts generalizing session next with
  | nil => cases inside
  | cons first others ih =>
    simp only [round, bind_eq_ok, pure_eq_ok] at ran
    obtain ⟨here, middle, stepped, rest, _, ran, -, rfl⟩ := ran
    rcases List.mem_cons.1 inside with rfl | later
    · exact ⟨session, List.mem_cons_self ..⟩
    · obtain ⟨before, met⟩ := ih ran later
      refine ⟨before, List.mem_cons_of_mem _ ?_⟩
      rwa [stepped]

/-- What a statement becomes stands among the statements after the round, and what is unresolved in
it counts. -/
theorem roundVisit_run (ran : round stmts session = .ok next session')
    (met : (before, s) ∈ roundVisits stmts session) :
    ∃ out after, stmt s before = .ok out after ∧ out.stmts ⊆ next.stmts ∧
      out.unresolved ≤ next.unresolved := by
  -- The outcome of a round is put together from those of its statements.
  induction stmts generalizing session next with
  | nil => cases met
  | cons first others ih =>
    simp only [round, bind_eq_ok, pure_eq_ok] at ran
    obtain ⟨here, middle, stepped, rest, _, ran, rfl, rfl⟩ := ran
    simp only [roundVisits, stepped, List.mem_cons, Prod.mk.injEq] at met
    rcases met with ⟨rfl, rfl⟩ | met
    · exact ⟨here, middle, stepped, List.subset_append_left _ _, Nat.le_add_right _ _⟩
    · obtain ⟨out, after, became, inside, counted⟩ := ih ran met
      exact ⟨out, after, became, List.Subset.trans inside (List.subset_append_right _ _),
        by simp; omega⟩

/-- A round is a steady step, and so is what leads to each of its statements and on from there. -/
theorem roundVisit_onward (ran : round stmts session = .ok next session')
    (tidy : session.scopes.Tidy) :
    session.Onward session' ∧ ∀ before s, (before, s) ∈ roundVisits stmts session →
      session.Onward before ∧ before.Onward session' := by
  -- By induction on the statements of the round.
  induction stmts generalizing session next with
  | nil =>
    rw [round, pure_eq_ok] at ran
    refine ⟨ran.2 ▸ .refl session, fun before s met => ?_⟩
    cases met
  | cons first others ih =>
    simp only [round, bind_eq_ok, pure_eq_ok] at ran
    obtain ⟨here, middle, stepped, rest, _, ran, -, rfl⟩ := ran
    have onward := stmt_steady first _ tidy stepped
    -- The table is tidy again behind the first statement.
    obtain ⟨whole, each⟩ := ih ran (tidy.comes onward.comes)
    refine ⟨onward.trans whole, fun before s met => ?_⟩
    simp only [roundVisits, stepped, List.mem_cons, Prod.mk.injEq] at met
    rcases met with ⟨rfl, rfl⟩ | met
    · exact ⟨.refl _, onward.trans whole⟩
    · exact ⟨onward.trans (each before s met).1, (each before s met).2⟩

/-- What a statement leaves of the session goes on to the end of the round. -/
theorem roundVisit_after (ran : round stmts session = .ok next session')
    (tidy : session.scopes.Tidy) (met : (before, s) ∈ roundVisits stmts session)
    (became : stmt s before = .ok out after) : after.Onward session' := by
  -- By induction on the statements, up to the one that is met.
  induction stmts generalizing session next with
  | nil => cases met
  | cons first others ih =>
    simp only [round, bind_eq_ok, pure_eq_ok] at ran
    obtain ⟨here, middle, stepped, rest, _, ran, -, rfl⟩ := ran
    have tidied := tidy.comes (stmt_steady first _ tidy stepped).comes
    simp only [roundVisits, stepped, List.mem_cons, Prod.mk.injEq] at met
    rcases met with ⟨rfl, rfl⟩ | met
    · cases stepped.symm.trans became
      exact (roundVisit_onward ran tidied).1
    · exact ih ran tidied met

/-! ### All rounds -/

/-- A round that fails ends the loop. -/
theorem roundsFrom_error {e : Error} (ran : round stmts session = .error e last) :
    roundsFrom count (left + 1) stmts session = .error e last := by
  -- The loop goes on from the result of the round.
  show EStateM.bind _ _ _ = _
  simp only [EStateM.bind, ran]

/-- A round that succeeds ends the loop, or it goes on with what the round leaves. -/
theorem roundsFrom_ok (ran : round stmts session = .ok next middle) :
    roundsFrom count (left + 1) stmts session =
      if next.unresolved = 0 then .ok next.stmts middle
      else if next.stmts = stmts then
        .error (.noProgress .resolve (count + 1) ((next.stmts.filter isPending).map Stmt.located))
          middle
      else roundsFrom (count + 1) left next.stmts middle := by
  -- The loop looks at what the round has left.
  show EStateM.bind _ _ _ = _
  simp only [EStateM.bind, ran]
  split
  · rfl
  · split <;> rfl

/-- The rounds end with the first one, or go on after it. -/
theorem roundsFrom_succ (ran : roundsFrom count (left + 1) stmts session = .ok flat session') :
    ∃ next middle, round stmts session = .ok next middle ∧
      ((next.unresolved = 0 ∧ flat = next.stmts ∧ middle = session' ∧
        visitsFrom (left + 1) stmts session = roundVisits stmts session) ∨
      (roundsFrom (count + 1) left next.stmts middle = .ok flat session' ∧
        visitsFrom (left + 1) stmts session =
          roundVisits stmts session ++ visitsFrom left next.stmts middle)) := by
  -- By what the first round comes to.
  cases first : round stmts session with
  | error e last =>
    rw [roundsFrom_error first] at ran
    cases ran
  | ok next middle =>
    rw [roundsFrom_ok first] at ran
    refine ⟨next, middle, rfl, ?_⟩
    simp only [visitsFrom, first]
    split at ran
    · rename_i done
      cases ran
      exact .inl ⟨done, rfl, rfl, by simp [done]⟩
    · rename_i more
      -- A round that changes nothing while something is unresolved is an error.
      split at ran
      · cases ran
      · exact .inr ⟨ran, by simp [more]⟩

/-- All rounds together are steady, and so is what leads to each statement and on from there. -/
theorem visit_onward (ran : roundsFrom count left stmts session = .ok flat session')
    (tidy : session.scopes.Tidy) :
    session.Onward session' ∧ ∀ before s, (before, s) ∈ visitsFrom left stmts session →
      session.Onward before ∧ before.Onward session' := by
  -- By induction on the rounds that are left.
  induction left generalizing count stmts session with
  | zero => simp [roundsFrom] at ran
  | succ left ih =>
    obtain ⟨next, middle, first, ⟨-, -, rfl, visited⟩ | ⟨ran, visited⟩⟩ := roundsFrom_succ ran
    · rw [visited]
      exact roundVisit_onward first tidy
    · obtain ⟨early, each⟩ := roundVisit_onward first tidy
      -- What is met later is reached through the whole of this round.
      obtain ⟨late, rest⟩ := ih ran (tidy.comes early.comes)
      refine ⟨early.trans late, fun before s met => ?_⟩
      rw [visited, List.mem_append] at met
      rcases met with met | met
      · exact ⟨(each before s met).1, (each before s met).2.trans late⟩
      · exact ⟨early.trans (rest before s met).1, (rest before s met).2⟩

/-- Every statement of a list is met while it is resolved. -/
theorem exists_visit (ran : roundsFrom count left stmts session = .ok flat session')
    (inside : s ∈ stmts) : ∃ before, (before, s) ∈ visitsFrom left stmts session := by
  -- The first round meets them all.
  cases left with
  | zero => simp [roundsFrom] at ran
  | succ left =>
    obtain ⟨next, middle, first, -⟩ := roundsFrom_succ ran
    obtain ⟨before, met⟩ := exists_roundVisit first inside
    exact ⟨before, List.mem_append_left _ met⟩

/-- A statement that is met becomes something. All of that is there at the end with nothing left
unresolved, or it is met in the next round. -/
theorem visit_run (ran : roundsFrom count left stmts session = .ok flat session')
    (met : (before, s) ∈ visitsFrom left stmts session) :
    ∃ out after, stmt s before = .ok out after ∧
      ((out.unresolved = 0 ∧ out.stmts ⊆ flat) ∨
        ∀ x ∈ out.stmts, ∃ later, (later, x) ∈ visitsFrom left stmts session) := by
  -- Only the last round leaves nothing unresolved; what another one leaves is met in the next.
  induction left generalizing count stmts session with
  | zero => simp [roundsFrom] at ran
  | succ left ih =>
    obtain ⟨next, middle, first, ⟨done, rfl, -, visited⟩ | ⟨ran, visited⟩⟩ := roundsFrom_succ ran
    · rw [visited] at met
      obtain ⟨out, after, became, among, counted⟩ := roundVisit_run first met
      exact ⟨out, after, became, .inl ⟨by omega, among⟩⟩
    · rw [visited] at met ⊢
      rcases List.mem_append.1 met with here | later
      · obtain ⟨out, after, became, among, -⟩ := roundVisit_run first here
        refine ⟨out, after, became, .inr fun x inside => ?_⟩
        obtain ⟨later, met⟩ := exists_visit ran (among inside)
        exact ⟨later, List.mem_append_right _ met⟩
      · obtain ⟨out, after, became, ends⟩ := ih ran later
        refine ⟨out, after, became, ends.imp_right fun each x inside => ?_⟩
        obtain ⟨later, met⟩ := each x inside
        exact ⟨later, List.mem_append_right _ met⟩

/-- A statement that does not leave everything resolved is followed by another round, which finds all
that it became. -/
theorem exists_run_behind (ran : roundsFrom count left stmts session = .ok flat session')
    (tidy : session.scopes.Tidy) (met : (before, s) ∈ visitsFrom left stmts session)
    (became : stmt s before = .ok out after) (unresolved : out.unresolved ≠ 0) :
    ∃ count' left' stmts' middle, roundsFrom count' left' stmts' middle = .ok flat session' ∧
      middle.scopes.Tidy ∧ after.Onward middle ∧ out.stmts ⊆ stmts' := by
  -- It is met in the first round that is left, which is not the last one, or in a later one.
  induction left generalizing count stmts session with
  | zero => simp [roundsFrom] at ran
  | succ left ih =>
    obtain ⟨next, middle, first, ⟨done, -, -, visited⟩ | ⟨ran, visited⟩⟩ := roundsFrom_succ ran
    · rw [visited] at met
      obtain ⟨out', _, became', -, counted⟩ := roundVisit_run first met
      cases became.symm.trans became'
      omega
    · have tidied := tidy.comes (roundVisit_onward first tidy).1.comes
      rw [visited, List.mem_append] at met
      rcases met with here | later
      · obtain ⟨out', _, became', among, -⟩ := roundVisit_run first here
        cases became.symm.trans became'
        exact ⟨count + 1, left, next.stmts, middle, ran, tidied,
          roundVisit_after first tidy here became, among⟩
      · exact ih ran tidied later

/-- A property that each statement hands on to what it becomes still holds in the last round, which
leaves nothing unresolved. -/
theorem exists_last {P : Stmt → Prop}
    (ran : roundsFrom count left stmts session = .ok flat session')
    (kept : ∀ before s out after, (before, s) ∈ visitsFrom left stmts session → P s →
      stmt s before = .ok out after → ∃ x ∈ out.stmts, P x)
    (met : (before, s) ∈ visitsFrom left stmts session) (holds : P s) :
    ∃ before s out after, (before, s) ∈ visitsFrom left stmts session ∧ P s ∧
      stmt s before = .ok out after ∧ out.unresolved = 0 ∧ out.stmts ⊆ flat := by
  -- By induction on the rounds: in the last one the statement is there, in any other it is
  -- handed on.
  induction left generalizing count stmts session before s with
  | zero => simp [roundsFrom] at ran
  | succ left ih =>
    obtain ⟨next, middle, first, rest⟩ := roundsFrom_succ ran
    obtain ⟨done, rfl, -, visited⟩ | ⟨ran, visited⟩ := rest
    · rw [visited] at met ⊢
      obtain ⟨out, after, became, among, counted⟩ := roundVisit_run first met
      exact ⟨before, s, out, after, met, holds, became, by omega, among⟩
    · rw [visited] at met kept ⊢
      have later : ∃ before s, (before, s) ∈ visitsFrom left next.stmts middle ∧ P s := by
        rcases List.mem_append.1 met with here | later
        · -- It is handed on to a statement that the next round meets.
          obtain ⟨out, after, became, among, -⟩ := roundVisit_run first here
          obtain ⟨x, inside, holds⟩ := kept before s out after met holds became
          obtain ⟨before', met'⟩ := exists_visit ran (among inside)
          exact ⟨before', x, met', holds⟩
        · exact ⟨before, s, later, holds⟩
      obtain ⟨before', s', met', holds'⟩ := later
      obtain ⟨before', s', out, after, met', rest⟩ :=
        ih ran (fun before s out after met => kept before s out after
          (List.mem_append_right _ met)) met' holds'
      exact ⟨before', s', out, after, List.mem_append_right _ met', rest⟩

end Resolve

end CrossAsm
