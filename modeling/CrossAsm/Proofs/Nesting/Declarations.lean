import CrossAsm.Proofs.Binding.Agreement
import CrossAsm.Proofs.Nesting.Transitions

/-! What nesting does to the scope table: it only declares, each symbol in the scope where it
belongs. -/

namespace CrossAsm

/-- A symbol as nesting declares it, in the namespace where it belongs. -/
inductive Symbol.Declared : Symbol → Namespace → Prop
  | var (v : Variable) : Declared (.var v) v.ns
  | function (f : FunctionSymbol) (fresh : f.entry = none) : Declared (.function f) .global
  | label (l : Label) : Declared (.label l) .global
  | type (t : TypeDef) (ns : Namespace) : Declared (.type t) ns

/-- A table that comes of another one by declarations, while scopes are opened and left. -/
inductive ScopeTable.Declares (table : ScopeTable) : ScopeTable → Prop
  | same {later : ScopeTable} (symbols : later.symbols = table.symbols) : Declares table later
  | define {middle later : ScopeTable} {symbol : Symbol} {ns : Namespace}
    (before : Declares table middle) (declared : symbol.Declared ns)
    (symbols : later.symbols = (middle.define symbol ns).symbols) : Declares table later

namespace ScopeTable

variable {table middle later : ScopeTable}

/-- Declarations after declarations. -/
theorem Declares.trans (early : table.Declares middle) (late : middle.Declares later) :
    table.Declares later := by
  -- By induction on the later declarations, the last of which comes off first.
  induction late with
  | same symbols =>
    cases early with
    | same before => exact .same (symbols.trans before)
    | define before declared here => exact .define before declared (symbols.trans here)
  | define _ declared symbols ih => exact .define ih declared symbols

/-- A declaration keeps a table tidy. -/
theorem Tidy.define (tidy : table.Tidy) {symbol : Symbol} {ns : Namespace}
    (declared : symbol.Declared ns) (symbols : later.symbols = (table.define symbol ns).symbols) :
    later.Tidy := by
  -- The new symbol is as it should be, and the others stay.
  have either : ∀ {owner name found}, Entries.get? (owner, name) later.symbols = some found →
      (symbol = found ∧ ns = owner ∧ symbol.name = name) ∨
        Entries.get? (owner, name) table.symbols = some found := by
    intro owner name found here
    rw [symbols, ScopeTable.define, Entries.get?_insert] at here
    split at here
    · rename_i same
      obtain ⟨rfl, rfl⟩ := Prod.mk.inj same
      exact .inl ⟨Option.some.inj here, rfl, rfl⟩
    · exact .inr here
  constructor
  -- A symbol is found under its own name.
  · intro owner name found here
    rcases either here with ⟨rfl, -, named⟩ | old
    · exact named
    · exact tidy.named old
  -- A function that is declared is not lowered yet.
  · intro owner name func here
    rcases either here with ⟨rfl, rfl, -⟩ | old
    · cases declared with
      | function _ fresh => exact .inl fresh
    · exact tidy.entry old
  -- A variable is entered in its own namespace.
  · intro owner name var here
    rcases either here with ⟨rfl, rfl, -⟩ | old
    · cases declared
      rfl
    · exact tidy.inside old

/-- Declarations keep a table tidy. -/
theorem Tidy.declares (tidy : table.Tidy) (declares : table.Declares later) : later.Tidy := by
  -- Tidiness is about the symbols only, and each declaration keeps it.
  induction declares with
  | same symbols =>
    constructor <;> rw [symbols]
    · exact tidy.named
    · exact tidy.entry
    · exact tidy.inside
  | define _ declared symbols ih => exact ih.define declared symbols

/-- An empty table is tidy. -/
theorem tidy_empty : Tidy {} :=
  ⟨nofun, nofun, nofun⟩

end ScopeTable

/-- Opening a scope changes no symbol. -/
theorem push_symbols (name : Option String) (table : ScopeTable) :
    (table.push name).symbols = table.symbols := by
  -- With a name or without one, only the scope is another.
  cases name <;> rfl

/-- Nor does leaving one, whose symbols stay where they are. -/
theorem pop_symbols {table later : ScopeTable} {ns : Namespace}
    (popped : table.pop = .ok (ns, later)) : later.symbols = table.symbols := by
  -- Only the open scope is changed.
  unfold ScopeTable.pop at popped
  split at popped
  · cases popped
    rfl
  · cases popped

/-- The same declaration gives the same symbols. -/
theorem define_symbols {table later : ScopeTable} (same : later.symbols = table.symbols)
    {symbol : Symbol} {ns : Namespace} :
    (later.define symbol ns).symbols = (table.define symbol ns).symbols := by
  -- The new symbols are computed from the old ones.
  simp only [ScopeTable.define, same]

namespace Nesting

variable {s s' : Nesting} {stmt : Stmt}

/-- Whether a statement may declare something: a variable, a label, a type, or the end of a function
does. -/
def declares (frames : List Frame) : Stmt → Bool
  | .item (.var _) | .item (.label _) | .item (.typeDecl _) => true
  | .item (.scopeEnd _) =>
    match frames with
    | .function _ depth :: _ => depth ≤ 1
    | _ => false
  | _ => false

/-- What a transition does to the symbols: it leaves them, or it declares one, if the statement may. -/
inductive Alters (s : Nesting) (stmt : Stmt) (table : ScopeTable) : Prop
  | leaves (symbols : table.symbols = s.session.scopes.symbols)
  | declares {symbol : Symbol} {ns : Namespace} (may : declares s.frames stmt = true)
    (declared : symbol.Declared ns)
    (symbols : table.symbols = (s.session.scopes.define symbol ns).symbols)

/-- An item that is passed on declares what is noted of it. -/
theorem Alters.passes {item item' : Item} {table : ScopeTable} {queue queue' : List Stmt}
    (notes : s.session.scopes.Notes item' table) (carried : Carries item queue item' queue') :
    s.Alters (.item item) table := by
  -- A variable and a label come of what they are, so that the statement may declare them.
  cases notes with
  | same => exact .leaves rfl
  | var var => cases carried <;> exact .declares rfl (.var _) rfl
  | label label =>
    cases carried
    exact .declares rfl (.label _) rfl

/-- Every transition leaves the symbols or declares one. -/
theorem Transition.alters (step : s.Transition stmt s') : s.Alters stmt s'.session.scopes := by
  -- By cases on the transition; what is added to the output is no symbol.
  cases step with
  | types decl => exact .declares rfl (.type _ _) rfl
  | passes _ _ notes _ added carried =>
    rw [added.session]
    exact .passes notes carried
  | tree _ added =>
    rw [added.session]
    exact .leaves rfl
  -- Scopes that are opened or left keep their symbols.
  | function | block | deepens | opensBare => exact .leaves (push_symbols _ _)
  | closesBare _ _ popped | rises _ _ _ popped | waits _ _ popped =>
    exact .leaves (pop_symbols popped)
  | endsConditional _ _ popped _ added =>
    rw [cascaded_session, added.session]
    exact .leaves (pop_symbols popped)
  | endsArm _ _ popped =>
    rw [cascaded_session]
    exact .leaves (pop_symbols popped)
  -- The end of a function declares it, without an entry.
  | @endsFunction pos _ _ _ _ _ _ frames last popped added =>
    rw [cascaded_session, added.session]
    have may : declares s.frames (.item (.scopeEnd pos)) = true := by
      simp [declares, frames, last]
    exact .declares may (.function _ (by rfl)) (define_symbols (pop_symbols popped))

/-- A statement that declares nothing changes no symbol. -/
theorem step_keeps {u : Unit} (ran : step stmt s = .ok u s')
    (quiet : declares s.frames stmt = false) :
    s'.session.scopes.symbols = s.session.scopes.symbols := by
  -- Of the two ways in which reading may alter the table, one is excluded.
  cases (step_leads stmt ran).alters with
  | leaves symbols => exact symbols
  | declares may => cases quiet.symm.trans may

/-- Reading a statement does nothing to the scope table but declare. -/
theorem step_declaring {u : Unit} (ran : step stmt s = .ok u s') :
    s.session.scopes.Declares s'.session.scopes := by
  -- Either no symbol is changed, or what is declared is one more step.
  cases (step_leads stmt ran).alters with
  | leaves symbols => exact .same symbols
  | declares _ declared symbols => exact .define (.same rfl) declared symbols

/-- Reading all statements does nothing to the scope table but declare. -/
theorem Visits.declares (visits : s.Visits s') : s.session.scopes.Declares s'.session.scopes := by
  -- By induction on the statements that are read, each of which declares.
  induction visits with
  | refl => exact .same rfl
  | tail _ advances ih =>
    obtain ⟨_, ran⟩ := advances
    have declares := step_declaring ran
    exact ih.trans declares

end Nesting

/-- Nesting keeps the scope table tidy. -/
theorem nest_tidy {stmts nested : List Stmt} {session session' : Session}
    (ran : nest stmts session = .ok nested session') (tidy : session.scopes.Tidy) :
    session'.scopes.Tidy := by
  -- Nesting is a run, each step of which declares at most one symbol.
  unfold nest at ran
  split at ran
  -- Only a run that succeeds gives a session that is asked about.
  · rename_i nested' state ran'
    cases ran
    exact tidy.declares (Nesting.run_eq_ok ran').1.declares
  · cases ran

end CrossAsm
