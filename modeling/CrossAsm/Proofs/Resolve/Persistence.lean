import CrossAsm.Proofs.Binding.Persistence
import CrossAsm.Proofs.Resolve.Termination

/-! The sessions of a run, one behind the other: from each of them to every later one the scope
table only comes of the one before and never gets lighter, so that what is bound with one session is
bound to the same with all that follow, whether resolving succeeds or not. -/

namespace CrossAsm

/-! ### Weights -/

/-- A symbol in place of a heavier one would make the entries lighter; no other one does. -/
theorem Entries.total_insert {κ : Type} [DecidableEq κ] (key : κ) (symbol : Symbol)
    (entries : List (κ × Symbol))
    (lighter : ∀ old, get? key entries = some old → old.weight ≤ symbol.weight) :
    total (entries.map fun entry => entry.2.weight + 1) ≤
      total ((insert key symbol entries).map fun entry => entry.2.weight + 1) := by
  -- The entry of the key is replaced where it stands, or a new one comes behind all others.
  induction entries with
  | nil => exact Nat.zero_le _
  | cons head rest ih =>
    obtain ⟨other, old⟩ := head
    by_cases here : other = key
    · have replaced : old.weight ≤ symbol.weight := lighter old (by simp [get?, here])
      simp only [insert, here, if_true, List.map_cons, total_cons]
      omega
    · have later := ih fun older found => lighter older (by simpa [get?, here] using found)
      simp only [insert, here, if_false, List.map_cons, total_cons]
      omega

namespace Session

/-- A session in whose table every symbol stands under its name and reserved names are those of
labels. -/
structure Orderly (session : Session) : Prop where
  /-- Symbols stand under their names. -/
  tidy : session.scopes.Tidy
  /-- Reserved names are those of labels. -/
  reserved : session.scopes.Reserved

/-- A session and one at a later time. -/
structure Ahead (early late : Session) : Prop where
  /-- Symbols become what they may become. -/
  onward : early.Onward late
  /-- The table gets no lighter. -/
  heavier : early.scopes.weight ≤ late.scopes.weight

variable {early late session : Session}

/-- A session at the same time. -/
theorem Ahead.refl (session : Session) : session.Ahead session :=
  ⟨.refl session, Nat.le_refl _⟩

/-- A time later than a later one. -/
theorem Ahead.trans {first second third : Session} (ahead : first.Ahead second)
    (further : second.Ahead third) : first.Ahead third :=
  ⟨ahead.onward.trans further.onward, Nat.le_trans ahead.heavier further.heavier⟩

/-- A session stays orderly. -/
theorem Orderly.ahead (orderly : early.Orderly) (ahead : early.Ahead late) : late.Orderly :=
  ⟨orderly.tidy.comes ahead.onward.comes, orderly.reserved.comes ahead.onward.comes⟩

/-- Resolving only goes ahead. -/
theorem ahead_invariant (orderly : session.Orderly) : Invariant session.Ahead := by
  -- A round defines labels, and functions in place of themselves.
  constructor
  · intro here pos ahead
    refine ahead.trans ⟨here.mint_onward pos, Entries.total_insert _ _ _ fun old found => ?_⟩
    -- If the name of the new label is taken, it is that of a label.
    obtain ⟨label, rfl⟩ := (orderly.ahead ahead).reserved _ old found
    exact Nat.le_refl _
  · intro here after name ahead ran
    have tidy := (orderly.ahead ahead).tidy
    refine ahead.trans ⟨Lowering.enter_steady name _ tidy ran, ?_⟩
    obtain rfl | ⟨func, found, rfl⟩ := Lowering.enter_run ran
    · exact Nat.le_refl _
    · refine Entries.total_insert _ _ _ fun old there => ?_
      -- It is the function itself that is defined once more.
      have named : func.decl.name = name := tidy.named found
      have same : Entries.get? (.global, name) here.scopes.symbols = some old := named ▸ there
      cases found.symm.trans same
      exact Nat.le_refl _

/-- The same view at a later time. -/
theorem Ahead.precedes (ahead : early.Ahead late) (orderly : early.Orderly) (ns : Namespace)
    (pos : Pos) : (Resolve.viewOf early ns pos).Precedes (Resolve.viewOf late ns pos) :=
  ⟨rfl, rfl, orderly.tidy, orderly.reserved, _, ahead.onward.comes⟩

/-- What is bound is bound to the same later. -/
theorem Ahead.bind (ahead : early.Ahead late) (orderly : early.Orderly) (ns : Namespace)
    (pos : Pos) (e : Expr) :
    View.Lasts ((Resolve.viewOf early ns pos).bind e) ((Resolve.viewOf late ns pos).bind e) :=
  (ahead.precedes orderly ns pos).bind ahead.heavier e

end Session

open Session (Ahead)

namespace Resolve

variable {stmts : List Stmt} {session final after : Session} {count left : Nat}

/-! ### Sessions in their order -/

/-- Sessions each of which is ahead of all before it, from a first one to a last one. -/
def InOrder (first : Session) (between : List Session) (last : Session) : Prop :=
  (first :: between ++ [last]).Pairwise Ahead

namespace InOrder

variable {first last : Session} {between more : List Session}

/-- Nothing is between two sessions. -/
theorem none (ahead : first.Ahead last) : InOrder first [] last :=
  List.pairwise_pair.2 ahead

/-- The last session is ahead of the first. -/
theorem ahead (order : InOrder first between last) : first.Ahead last :=
  List.rel_of_pairwise_cons order (by simp)

/-- Sessions before others. -/
theorem cons {earlier : Session} (ahead : earlier.Ahead first)
    (order : InOrder first between last) : InOrder earlier (first :: between) last := by
  refine List.pairwise_cons.2 ⟨fun later inside => ?_, order⟩
  -- What is ahead of the first one is ahead of any before it.
  rcases List.mem_cons.1 inside with rfl | behind
  · exact ahead
  · exact ahead.trans (List.rel_of_pairwise_cons order behind)

/-- Sessions behind others. -/
theorem append {middle : Session} (order : InOrder first between middle)
    (further : InOrder middle more last) : InOrder first (between ++ more) last := by
  -- By induction on the sessions in front.
  induction between generalizing first with
  | nil =>
    -- The session in the middle is skipped.
    have whole := further.cons order.ahead
    exact List.Pairwise.sublist ((List.sublist_cons_self middle _).cons_cons first) whole
  | cons next others ih =>
    have nearer := List.rel_of_pairwise_cons order List.mem_cons_self
    exact (ih order.of_cons).cons nearer

end InOrder

/-- The sessions that the statements of a round find are in order, up to the one that it leaves. -/
theorem roundVisits_inOrder (orderly : session.Orderly)
    (leaves : Leaves (round stmts) session after) :
    InOrder session ((roundVisits stmts session).map Prod.fst) after := by
  -- By induction on the statements of the round.
  induction stmts generalizing session with
  | nil =>
    obtain rfl := leaves_pure.1 leaves
    exact .none (.refl after)
  | cons first others ih =>
    have turn := stmt_guarded (Session.ahead_invariant orderly) first
    refine .cons (.refl session) ?_
    -- A statement that fails ends the round; another one hands its session on.
    obtain ⟨e, stepped⟩ | ⟨here, middle, stepped, leaves⟩ := leaves_bind.1 leaves
    · simp only [stepped]
      exact .none (turn.fails (.refl session) stepped).1
    · have ahead := turn.kept (.refl session) stepped
      have rest : Leaves (round others) middle after := by
        obtain ⟨e, ran⟩ | ⟨next, _, ran, leaves⟩ := leaves_bind.1 leaves
        · exact .inr ⟨e, ran⟩
        · exact .inl ⟨next, leaves_pure.1 leaves ▸ ran⟩
      simp only [stepped]
      exact (InOrder.none ahead).append (ih (orderly.ahead ahead) rest)

/-- A list that a round leaves with the session is met with the same sessions in every round. -/
theorem visitsFrom_same {unresolved : Nat} (orderly : session.Orderly)
    (ran : round stmts session = .ok ⟨stmts, unresolved⟩ session) :
    InOrder session ((visitsFrom left stmts session).map Prod.fst) session := by
  -- By induction on the rounds, each of which is the same.
  induction left with
  | zero => exact .none (.refl session)
  | succ left ih =>
    have first := roundVisits_inOrder orderly (.inl ⟨_, ran⟩)
    simp only [visitsFrom, ran, List.map_append]
    split
    · simpa using first
    · exact first.append ih

/-- The sessions of all rounds are in order, up to the one that is left at the end. -/
theorem visitsFrom_inOrder (orderly : session.Orderly)
    (leaves : Leaves (roundsFrom count left stmts) session final) :
    InOrder session ((visitsFrom left stmts session).map Prod.fst) final := by
  -- By induction on the rounds that are left.
  induction left generalizing count stmts session with
  | zero =>
    -- No round is left to be run.
    obtain ⟨_, ran⟩ | ⟨_, ran⟩ := leaves
    · cases ran
    · cases ran
      exact .none (.refl _)
  | succ left ih =>
    obtain ⟨e, ran⟩ | ⟨next, middle, ran, rest⟩ := leaves_bind.1 leaves
    · -- The round fails, and is the last one.
      have first := roundVisits_inOrder orderly (.inr ⟨e, ran⟩)
      simpa [visitsFrom, ran] using first
    · -- The round succeeds, and others may follow it.
      have first := roundVisits_inOrder orderly (.inl ⟨next, ran⟩)
      simp only [visitsFrom, ran, List.map_append]
      split at rest
      · -- Nothing is unresolved, so that it is the last one.
        rename_i done
        obtain rfl := leaves_pure.1 rest
        simpa [done] using first
      · rename_i more
        simp only [if_neg more]
        split at rest
        · -- The loop gives up where further rounds would find the same.
          rename_i same
          obtain rfl := round_same ran same
          obtain ⟨list, unresolved⟩ := next
          obtain rfl : list = stmts := same
          obtain ⟨_, gaveUp⟩ | ⟨_, gaveUp⟩ := rest
          · cases gaveUp
          · cases gaveUp
            exact first.append (visitsFrom_same orderly ran)
        · exact first.append (ih (orderly.ahead first.ahead) rest)

end Resolve

end CrossAsm
