import CrossAsm.Resolve
import CrossAsm.Proofs.Binding.Agreement
import CrossAsm.Proofs.Lowering.Emission

/-! How resolving changes the session: functions get their entries and labels are minted, and
nothing else happens to it. -/

namespace CrossAsm

namespace Symbol.Becomes

variable {limit limit' : Nat} {ns : Namespace} {name : String} {first second third : Option Symbol}

/-- A higher limit allows no less. -/
theorem mono (becomes : Becomes limit ns name first second) (less : limit ≤ limit') :
    Becomes limit' ns name first second := by
  -- The limit is met only where a label is minted.
  cases becomes with
  | same => exact .same _
  | entered => exact .entered
  | minted global counted reserved named =>
    exact .minted global (Nat.lt_of_lt_of_le counted less) reserved named

/-- What becomes of a symbol in two steps may become of it in one. -/
theorem trans (early : Becomes limit ns name first second)
    (late : Becomes limit ns name second third) : Becomes limit ns name first third := by
  -- The later change decides, and it leaves open what came before.
  cases late with
  | same => exact early
  | minted global counted reserved named => exact .minted global counted reserved named
  | entered =>
    -- Only a function has an entry, so no label was minted before.
    cases early with
    | same => exact .entered
    | entered => exact .entered

end Symbol.Becomes

namespace ScopeTable

variable {base table later : ScopeTable} {limit limit' : Nat}

/-- What comes of a tidy table is tidy. -/
theorem Tidy.comes (tidy : base.Tidy) (comes : base.Comes limit table) : table.Tidy := by
  -- Each symbol is looked at as it was in the tidy table: a new entry and a new label fit.
  constructor
  · -- Every symbol has the name that it is entered under.
    intro ns name symbol found
    have becomes := comes ns name
    generalize before : Entries.get? (ns, name) base.symbols = old at becomes
    rw [found] at becomes
    cases becomes with
    | same => exact tidy.named before
    | entered =>
      have named := tidy.named before
      exact named
    | minted _ _ _ named => exact named
  · -- An entry is named like its function.
    intro ns name func found
    have becomes := comes ns name
    generalize before : Entries.get? (ns, name) base.symbols = old at becomes
    rw [found] at becomes
    cases becomes with
    | same => exact tidy.entry before
    | entered => exact .inr rfl
  · -- A variable is in the namespace where it stands.
    intro ns name var found
    have becomes := comes ns name
    generalize before : Entries.get? (ns, name) base.symbols = old at becomes
    rw [found] at becomes
    cases becomes with
    | same => exact tidy.inside before

end ScopeTable

namespace Session

/-- The session after steps of resolving. -/
structure Onward (session session' : Session) : Prop where
  /-- The processor stays. -/
  cpu : session'.cpu = session.cpu
  /-- Labels are only added. -/
  labels : session.labels ≤ session'.labels
  /-- Symbols become what they may become while labels are minted. -/
  comes : session.scopes.Comes session'.labels session'.scopes

variable {session session' : Session}

/-- No step at all changes nothing. -/
theorem Onward.refl (session : Session) : session.Onward session :=
  ⟨rfl, Nat.le_refl _, fun _ _ => .same _⟩

/-- Steps after steps are steps. -/
theorem Onward.trans {first second third : Session} (early : first.Onward second)
    (late : second.Onward third) : first.Onward third :=
  ⟨late.cpu.trans early.cpu, Nat.le_trans early.labels late.labels,
    fun ns name => ((early.comes ns name).mono late.labels).trans (late.comes ns name)⟩

/-- Minting a label is a step of resolving. -/
theorem mint_onward (session : Session) (pos : Pos) : session.Onward (session.mint pos).2 := by
  refine ⟨rfl, Nat.le_succ _, fun ns name => ?_⟩
  -- Only the name that is minted changes its symbol.
  simp only [mint, ScopeTable.get?_define]
  split
  · rename_i here
    obtain ⟨rfl, rfl⟩ := Prod.mk.inj here
    exact .minted rfl (Nat.lt_succ_self _) rfl rfl
  · exact .same _

/-- Minting labels is a step of resolving. -/
theorem MintsTo.onward (minted : session.MintsTo session') : session.Onward session' := by
  -- By induction on the labels that are minted.
  induction minted with
  | refl => exact .refl session
  | @mint middle _ pos ih => exact ih.trans (middle.mint_onward pos)

/-- A question has an answer and leaves the session. -/
theorem ask_eq_ok {α : Type} {question : Session → Except Error α} {a : α} :
    ask question session = .ok a session' ↔ question session = .ok a ∧ session = session' := by
  -- The session is read and put back.
  simp only [ask, bind_eq_ok, get_eq_ok]
  constructor
  · rintro ⟨_, _, ⟨rfl, rfl⟩, ran⟩
    cases answer : question session <;> simp_all
  · rintro ⟨answer, rfl⟩
    exact ⟨session, session, ⟨rfl, rfl⟩, by simp [answer]⟩

/-- Steps that a tidy session takes onward. -/
def Steady {α : Type} (m : SessionStep α) : Prop :=
  ∀ session : Session, session.scopes.Tidy → Leads m session session.Onward

namespace Steady

variable {α β : Type}

/-- An answer leaves the session. -/
theorem pure (a : α) : Steady (Pure.pure a : SessionStep α) :=
  fun session _ => .done (.refl session)

/-- An error is no step. -/
theorem throw (e : Error) : Steady (MonadExcept.throw e : SessionStep α) :=
  fun _ _ => .fail e

/-- One steady step after another. -/
theorem bind {m : SessionStep α} {k : α → SessionStep β} (first : Steady m)
    (rest : ∀ a, Steady (k a)) : Steady (m >>= k) := by
  intro session tidy
  refine (first session tidy).andThen fun a middle onward => ?_
  -- What comes of a tidy table is tidy, so the second step is steady as well.
  exact (rest a middle (tidy.comes onward.comes)).mono fun _ => onward.trans

/-- A question leaves the session. -/
theorem ask (question : Session → Except Error α) : Steady (Session.ask question) := by
  -- The state after the question is the one before it.
  intro session _ b session' ran
  exact (ask_eq_ok.1 ran).2 ▸ .refl session

end Steady

end Session

open Session (Steady)

namespace Lowering

/-- Lowering a conditional is steady, for it only mints labels. -/
theorem conditional_steady (cond : Conditional Stmt) : Steady (conditional cond) := by
  -- What it emits comes with a proof that it goes from label to label.
  intro session _ code session' ran
  exact (conditional_emits ran).1.onward

/-- Making an entry known leaves the session if the name is that of no function; else it defines the
function once more, with its entry. -/
theorem enter_run {name : String} {session session' : Session} {a : Unit}
    (ran : enter name session = .ok a session') :
    session' = session ∨ ∃ func,
      Entries.get? (.global, name) session.scopes.symbols = some (.function func) ∧
      session' = { session with
        scopes := session.scopes.define (.function { func with entry := some name }) .global } := by
  -- By what the name leads to.
  simp only [enter, bind_eq_ok, get_eq_ok, ScopeTable.lookup?_global] at ran
  obtain ⟨_, _, ⟨rfl, rfl⟩, ran⟩ := ran
  rcases here : Entries.get? (.global, name) session.scopes.symbols with
    _ | var | func | label | type
  · simp only [here, Option.map_none, pure_eq_ok] at ran
    exact .inl ran.2.symm
  · simp only [here, Option.map_some, pure_eq_ok] at ran
    exact .inl ran.2.symm
  · simp only [here, Option.map_some, Session.define, modify_eq_ok] at ran
    exact .inr ⟨func, here, ran.symm⟩
  · simp only [here, Option.map_some, pure_eq_ok] at ran
    exact .inl ran.2.symm
  · simp only [here, Option.map_some, pure_eq_ok] at ran
    exact .inl ran.2.symm

/-- Making an entry known is steady, for in a tidy table a function stands under its name. -/
theorem enter_steady (name : String) : Steady (enter name) := by
  intro session tidy a session' ran
  obtain rfl | ⟨func, here, rfl⟩ := enter_run ran
  · exact .refl session'
  · have named : func.decl.name = name := tidy.named here
    -- The entry is made known under the name that was looked up.
    refine ⟨rfl, Nat.le_refl _, fun ns other => ?_⟩
    rw [ScopeTable.get?_define]
    split
    · rename_i same
      obtain ⟨rfl, rfl⟩ := Prod.mk.inj same
      simp only [Symbol.name, named, here]
      exact .entered
    · exact .same _

/-- Lowering a function is steady. -/
theorem function_steady (func : Function Stmt) : Steady (function func) := by
  -- An inline function is left, and any other one is entered.
  unfold function
  simp only
  split
  · exact .pure _
  · exact (enter_steady _).bind fun _ => .pure _

end Lowering

/-- Resolving one statement is steady. -/
theorem Resolve.stmt_steady (s : Stmt) : Steady (Resolve.stmt s) := by
  -- Functions and conditionals are lowered; for anything else the session is only asked.
  unfold Resolve.stmt
  split
  · exact (Lowering.function_steady _).bind fun _ => .pure _
  · exact (Lowering.conditional_steady _).bind fun _ => .pure _
  · split <;> first | exact .pure _ | exact .ask _ | exact .throw _

end CrossAsm
