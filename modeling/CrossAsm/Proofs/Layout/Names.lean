import CrossAsm.Proofs.Layout.TwoPass

/-! The names that the walk of layout binds: those of the labels and variables that it meets, and no
others. So which names have an address can be read off the statements. -/

namespace CrossAsm

/-- The name that a statement binds to an address. -/
def Stmt.bound? : Stmt → Option String
  | .item (.label l) => some l.name
  | .item (.var var) => some var.key
  | _ => none

/-- The names that statements bind, in order. -/
def boundNames (stmts : List Stmt) : List String :=
  stmts.filterMap Stmt.bound?

/-- Whether a name has an address. -/
def Addresses.Has (addresses : Addresses) (name : String) : Prop :=
  (Entries.get? name addresses).isSome

instance (addresses : Addresses) (name : String) : Decidable (addresses.Has name) :=
  inferInstanceAs (Decidable ((Entries.get? name addresses).isSome = true))

namespace Addresses

variable {addresses : Addresses} {name : String}

/-- Inserting a name gives an address to that name. -/
theorem has_insert {other : String} {address : UInt16} :
    Addresses.Has (Entries.insert other address addresses) name ↔
      addresses.Has name ∨ other = name := by
  unfold Has
  rw [Entries.get?_insert]
  -- The name is the one inserted, or is looked up as before.
  by_cases same : other = name <;> simp [same]

end Addresses

namespace Layout

variable {session : Session} {state state' : Layout}

/-- A step that gives an address to one name at most: afterwards the names with an address are those
from before and that one. -/
def Names (name? : Option String) (state state' : Layout) : Prop :=
  ∀ name, state'.addresses.Has name ↔ state.addresses.Has name ∨ name? = some name

/-- A statement gives an address to the name that it binds. -/
theorem Step.names {s : Stmt} (step : Step session state s state') : Names s.bound? state state' := by
  -- A statement that binds no name leaves the addresses, and the others bind their own.
  have nothing : state'.addresses = state.addresses → Names none state state' := by
    intro same name
    simp [same]
  have named : ∀ {name address}, state'.addresses = bound name address state →
      Names (some name) state state' := by
    intro name address same other
    rw [same, bound, Addresses.has_insert, Option.some.injEq]
  cases step with
  | begin | finish | request | incbin | openWindow | closeWindow => exact nothing rfl
  | label | fixed | free => exact named rfl
  | filled _ _ _ _ _ tried => exact named (retry_rests tried).addresses
  | instruction _ _ _ tried => exact nothing (retry_rests tried).addresses
  | vector tried => exact nothing (retry_rests tried).addresses

/-- After the walk the names with an address are those from before and those that the statements
bind. -/
theorem walk_names {stmts : List Stmt} (ran : walk session stmts state = .ok () state')
    (name : String) :
    state'.addresses.Has name ↔ state.addresses.Has name ∨ name ∈ boundNames stmts := by
  -- By induction on the statements, with one step for each.
  induction stmts generalizing state with
  | nil =>
    rw [walk, pure_eq_ok] at ran
    simp [← ran.2, boundNames]
  | cons first others ih =>
    simp only [walk, bind_eq_ok] at ran
    obtain ⟨_, next, stepped, ran⟩ := ran
    -- The first statement binds its name, and the others theirs.
    rw [ih ran, (stmt_step stepped).names name, or_assoc]
    cases named : first.bound? <;> simp [boundNames, named, eq_comm]

/-- A walk from the start gives addresses to exactly the names that the statements bind. -/
theorem walk_names_start {stmts : List Stmt} (ran : walk session stmts {} = .ok () state')
    (name : String) : state'.addresses.Has name ↔ name ∈ boundNames stmts := by
  -- At the start no name has an address.
  have nothing : ¬ Addresses.Has [] name := by simp [Addresses.Has, Entries.get?]
  rw [walk_names ran, or_iff_right nothing]

end Layout

end CrossAsm
