import CrossAsm.Error
import CrossAsm.Scope.Symbol

/-! The scope table: symbols by namespace and name, looked up from the inside out. -/

namespace CrossAsm

/-- The symbols of all scopes. What a scope defined stays when the scope is left, so that statements
that stood in it can still be resolved. -/
structure ScopeTable where
  /-- The symbols under their namespaces and names. -/
  symbols : List ((Namespace × String) × Symbol) := []
  /-- The scope that is open. -/
  current : Namespace := .global
  /-- The number of scopes without a name that were opened. -/
  anonymous : Nat := 0

namespace ScopeTable

/-- The name of the scope that is opened without one, the given number before it. -/
def anonymousName (count : Nat) : String :=
  s!"__anonymous{count}__"

/-- Opens a scope inside the current one; without a name it gets a fresh one. -/
def push (table : ScopeTable) : Option String → ScopeTable
  | some name => { table with current := table.current.child name }
  | none =>
    { table with
      current := table.current.child (anonymousName table.anonymous)
      anonymous := table.anonymous + 1 }

/-- Leaves the current scope, and gives its namespace. -/
def pop (table : ScopeTable) : Except Error (Namespace × ScopeTable) :=
  match table.current.parent? with
  | some parent => .ok (table.current, { table with current := parent })
  | none => .error .popGlobal

/-- Defines a symbol in a namespace, in place of one of the same name. -/
def define (table : ScopeTable) (symbol : Symbol) (ns : Namespace) : ScopeTable :=
  { table with symbols := Entries.insert (ns, symbol.name) symbol table.symbols }

/-- The symbol of a name as seen from a namespace, and where it is defined. -/
def lookup? (table : ScopeTable) (name : String) (ns : Namespace) : Option (Namespace × Symbol) :=
  ns.ancestors.findSome? fun owner =>
    (Entries.get? (owner, name) table.symbols).map fun symbol => (owner, symbol)

/-- A symbol in a table is found under the name it was defined with. -/
theorem get?_define (table : ScopeTable) (symbol : Symbol) (owner ns : Namespace) (name : String) :
    Entries.get? (ns, name) (table.define symbol owner).symbols =
      if (owner, symbol.name) = (ns, name) then some symbol
      else Entries.get? (ns, name) table.symbols := by
  rw [define, Entries.get?_insert]

/-- From the global namespace only global symbols are seen. -/
theorem lookup?_global (table : ScopeTable) (name : String) :
    table.lookup? name .global =
      (Entries.get? (.global, name) table.symbols).map (.global, ·) := by
  simp [lookup?, Namespace.ancestors, Namespace.global]

/-- What a name leads to stands in the namespace where it is found. -/
theorem get?_of_lookup? {table : ScopeTable} {name : String} {ns owner : Namespace}
    {symbol : Symbol} (found : table.lookup? name ns = some (owner, symbol)) :
    Entries.get? (owner, name) table.symbols = some symbol := by
  -- The first scope around that has the name is the one that is given.
  obtain ⟨other, -, seen⟩ := List.exists_of_findSome?_eq_some found
  obtain ⟨_, here, same⟩ := Option.map_eq_some_iff.1 seen
  obtain ⟨rfl, rfl⟩ := Prod.mk.inj same
  exact here

end ScopeTable

end CrossAsm
