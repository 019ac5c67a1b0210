import Mathlib
import CrossAsm.Scope.Table

/-! What a scope table shows after any requests: of all definitions of a name in the scopes around a
namespace, the latest one in the innermost of them. Scopes that are opened without a name are never
opened twice. -/

namespace CrossAsm

namespace Namespace

/-- A namespace that is another one or stands around it. -/
def Encloses (outer inner : Namespace) : Prop :=
  outer.path <+: inner.path

instance (outer inner : Namespace) : Decidable (outer.Encloses inner) :=
  inferInstanceAs (Decidable (_ <+: _))

/-- The scopes that are searched are those around a namespace. -/
theorem mem_ancestors {owner ns : Namespace} : owner ∈ ns.ancestors ↔ owner.Encloses ns := by
  -- A scope around a namespace is a beginning of its path.
  simp only [ancestors, List.mem_map, List.mem_reverse, List.mem_range]
  constructor
  · rintro ⟨depth, -, rfl⟩
    exact List.take_prefix depth ns.path
  · intro encloses
    refine ⟨owner.path.length, Nat.lt_succ_of_le encloses.length_le, ?_⟩
    rw [← List.prefix_iff_eq_take.1 encloses]

/-- They are searched from the inside out. -/
theorem ancestors_outward (ns : Namespace) :
    ns.ancestors.Pairwise fun inner outer => outer.path.length < inner.path.length := by
  -- The beginnings are listed from the longest to the shortest.
  rw [ancestors, List.pairwise_map, List.pairwise_reverse]
  refine List.pairwise_lt_range.imp_of_mem fun {shallow deep} _ inside less => ?_
  have := List.mem_range.1 inside
  simp only [List.length_take]
  omega

end Namespace

namespace ScopeTable

/-! ### Requests one after another -/

/-- A request that changes a scope table. -/
inductive Request where
  | push (name : Option String)
  | pop
  /-- Without a namespace the symbol is defined in the open scope. -/
  | define (symbol : Symbol) (ns : Option Namespace)

/-- What becomes of a table; a request to leave the global scope fails and changes nothing. -/
def perform (table : ScopeTable) : Request → ScopeTable
  | .push name => table.push name
  | .pop =>
    match table.pop with
    | .ok (_, later) => later
    | .error _ => table
  | .define symbol ns => table.define symbol (ns.getD table.current)

/-- What becomes of a table by requests one after another. -/
def performAll (table : ScopeTable) : List Request → ScopeTable
  | [] => table
  | request :: rest => (table.perform request).performAll rest

/-- The definition that a request makes, and the namespace that it is made in. -/
def definition? (table : ScopeTable) : Request → Option (Namespace × Symbol)
  | .define symbol ns => some (ns.getD table.current, symbol)
  | _ => none

/-- The namespace that a request enters without giving it a name. -/
def unnamedScope? (table : ScopeTable) : Request → Option Namespace
  | .push none => some (table.push none).current
  | _ => none

/-- What is noted of requests from first to last, each with the table that it meets. -/
def noted {α : Type} (note : ScopeTable → Request → Option α) (table : ScopeTable) :
    List Request → List α
  | [] => []
  | request :: rest => (note table request).toList ++ noted note (table.perform request) rest

/-- The definitions that requests make to a new table. -/
abbrev definitions (requests : List Request) : List (Namespace × Symbol) :=
  noted definition? {} requests

/-- The namespaces that requests to a new table enter without giving them a name. -/
abbrev unnamedScopes (requests : List Request) : List Namespace :=
  noted unnamedScope? {} requests

/-- A name that was ever defined in a namespace. -/
def EverDefined (made : List (Namespace × Symbol)) (owner : Namespace) (name : String) : Prop :=
  ∃ symbol, (owner, symbol) ∈ made ∧ symbol.name = name

/-- A symbol that was defined in a namespace, with no definition of its name there since. -/
def Latest (made : List (Namespace × Symbol)) (owner : Namespace) (symbol : Symbol) : Prop :=
  ∃ earlier later, made = earlier ++ (owner, symbol) :: later ∧ ¬EverDefined later owner symbol.name

variable {table : ScopeTable} {made : List (Namespace × Symbol)} {owner place : Namespace}
  {name : String} {symbol new : Symbol}

/-! ### Symbols -/

/-- One definition more. -/
theorem everDefined_snoc :
    EverDefined (made ++ [(place, new)]) owner name ↔
      (place, new.name) = (owner, name) ∨ EverDefined made owner name := by
  -- The definition is among the earlier ones or is the one made now.
  constructor
  · rintro ⟨symbol, inside, rfl⟩
    rcases List.mem_append.1 inside with early | last
    · exact .inr ⟨symbol, early, rfl⟩
    · cases List.mem_singleton.1 last
      exact .inl rfl
  · rintro (same | ⟨symbol, early, named⟩)
    · cases same
      exact ⟨new, List.mem_append_right _ List.mem_cons_self, rfl⟩
    · exact ⟨symbol, List.mem_append_left _ early, named⟩

/-- After one definition more the latest is that one, or one of another name or in another place. -/
theorem latest_snoc :
    Latest (made ++ [(place, new)]) owner symbol ↔
      (place, new) = (owner, symbol) ∨
        (place, new.name) ≠ (owner, symbol.name) ∧ Latest made owner symbol := by
  -- The definitions are split where the latest one stands.
  constructor
  · rintro ⟨earlier, later, split, since⟩
    -- Either nothing came since, or the last of what came is the definition made now.
    rcases List.eq_nil_or_concat later with rfl | ⟨between, last, rfl⟩
    · obtain ⟨-, same⟩ := List.append_inj' split rfl
      cases same
      exact .inl rfl
    · rw [List.concat_eq_append] at split since
      rw [← List.cons_append, ← List.append_assoc] at split
      obtain ⟨rfl, same⟩ := List.append_inj' split rfl
      cases same
      rw [everDefined_snoc, not_or] at since
      exact .inr ⟨since.1, earlier, between, rfl, since.2⟩
  · rintro (same | ⟨other, earlier, later, rfl, since⟩)
    · cases same
      exact ⟨made, [], rfl, fun ⟨_, inside, _⟩ => nomatch inside⟩
    · refine ⟨earlier, later ++ [(place, new)], by simp, ?_⟩
      rw [everDefined_snoc, not_or]
      exact ⟨other, since⟩

/-- A table that shows the latest of the definitions made. -/
structure Shows (table : ScopeTable) (made : List (Namespace × Symbol)) : Prop where
  /-- The symbol of a name in a namespace is the latest one. -/
  latest : ∀ owner name symbol, Entries.get? (owner, name) table.symbols = some symbol ↔
    symbol.name = name ∧ Latest made owner symbol
  /-- There is none only if the name was never defined in the namespace. -/
  never : ∀ owner name, Entries.get? (owner, name) table.symbols = none ↔
    ¬EverDefined made owner name

/-- A new table shows nothing. -/
theorem shows_new : Shows {} [] where
  latest owner name symbol := by
    -- Nothing is found, and nothing was defined.
    refine ⟨fun found => (nomatch found), ?_⟩
    rintro ⟨-, earlier, later, split, -⟩
    simp at split
  never owner name := ⟨fun _ defined => (List.not_mem_nil defined.choose_spec.1).elim, fun _ => rfl⟩

/-- One definition more is shown in place of those of its name in its namespace. -/
theorem Shows.define (shows_ : table.Shows made) (new : Symbol) (place : Namespace) :
    (table.define new place).Shows (made ++ [(place, new)]) where
  latest owner name symbol := by
    -- By whether the name and the place are those of the new definition.
    rw [get?_define, latest_snoc]
    split
    · -- It is the definition that was just made.
      rename_i same
      cases same
      constructor
      · rintro ⟨⟩
        exact ⟨rfl, .inl rfl⟩
      · rintro ⟨named, same | ⟨other, -⟩⟩
        · cases same
          rfl
        · exact (other (by rw [named])).elim
    · -- The last definition of another name is what it was.
      rename_i other
      rw [shows_.latest]
      refine and_congr_right fun named => ?_
      subst named
      refine ⟨fun latest => .inr ⟨other, latest⟩, ?_⟩
      rintro (same | ⟨-, latest⟩)
      · cases same
        exact (other rfl).elim
      · exact latest
  never owner name := by
    rw [get?_define, everDefined_snoc, not_or]
    -- The name is defined now.
    split
    · rename_i same
      refine ⟨fun absent => ?_, fun never => (never.1 same).elim⟩
      cases absent
    · -- Another name has been defined as often as before.
      rename_i other
      rw [shows_.never]
      exact ⟨fun never => ⟨other, never⟩, And.right⟩

/-- Opening and leaving scopes changes no symbol. -/
theorem perform_symbols {request : Request} (none : table.definition? request = none) :
    (table.perform request).symbols = table.symbols := by
  -- A request that defines nothing opens a scope or leaves one.
  cases request with
  | push name => cases name <;> rfl
  | pop =>
    unfold perform pop
    cases table.current.parent? <;> rfl
  | define => cases none

/-- A request is noted in what is shown. -/
theorem Shows.perform (shows_ : table.Shows made) (request : Request) :
    (table.perform request).Shows (made ++ (table.definition? request).toList) := by
  -- By whether the request defines something.
  cases noted : table.definition? request with
  | none =>
    rw [Option.toList_none, List.append_nil]
    constructor <;> rw [perform_symbols noted]
    exacts [shows_.latest, shows_.never]
  | some definition =>
    cases request with
    | push | pop => cases noted
    | define symbol ns =>
      cases noted
      exact shows_.define symbol _

/-- So are all requests of a run. -/
theorem Shows.performAll (shows_ : table.Shows made) (requests : List Request) :
    (table.performAll requests).Shows (made ++ noted definition? table requests) := by
  -- By induction on the requests.
  induction requests generalizing table made with
  | nil =>
    rw [noted, List.append_nil]
    exact shows_
  | cons request rest ih =>
    rw [noted, ← List.append_assoc]
    exact ih (shows_.perform request)

/-- A name leads to the innermost scope that has it. -/
theorem lookup?_eq_some_iff {ns : Namespace} :
    table.lookup? name ns = some (owner, symbol) ↔
      owner.Encloses ns ∧ Entries.get? (owner, name) table.symbols = some symbol ∧
        ∀ inner, inner.Encloses ns → Entries.get? (inner, name) table.symbols ≠ none →
          inner.path.length ≤ owner.path.length := by
  -- The first scope with the name is looked for from the inside out.
  have outward := ns.ancestors_outward
  simp only [lookup?, List.findSome?_eq_some_iff, ← Namespace.mem_ancestors, Option.map_eq_some_iff,
    Option.map_eq_none_iff, Prod.mk.injEq]
  constructor
  · rintro ⟨passed, found, rest, split, ⟨_, here, rfl, rfl⟩, none⟩
    rw [split] at outward ⊢
    refine ⟨by simp, here, fun inner inside has => ?_⟩
    -- What was passed on the way has no such name, and what was not reached is further out.
    rcases List.mem_append.1 inside with early | late
    · exact (has (none inner early)).elim
    · rcases List.mem_cons.1 late with rfl | late
      · exact Nat.le_refl _
      · exact Nat.le_of_lt ((List.pairwise_cons.1 (List.pairwise_append.1 outward).2.1).1 _ late)
  · rintro ⟨inside, here, innermost⟩
    obtain ⟨passed, rest, split⟩ := List.append_of_mem inside
    refine ⟨passed, owner, rest, split, ⟨symbol, here, rfl, rfl⟩, fun inner early => ?_⟩
    by_contra has
    rw [split] at outward innermost
    have deeper := (List.pairwise_append.1 outward).2.2 inner early owner List.mem_cons_self
    have := innermost inner (List.mem_append_left _ early) has
    omega

/-- A name leads nowhere only if no scope around has it. -/
theorem lookup?_eq_none_iff {ns : Namespace} :
    table.lookup? name ns = none ↔
      ∀ owner, owner.Encloses ns → Entries.get? (owner, name) table.symbols = none := by
  -- The scopes around are the ones that are asked, from the innermost on.
  simp only [lookup?, List.findSome?_eq_none_iff, ← Namespace.mem_ancestors, Option.map_eq_none_iff]

/-- What is defined outside of all scopes around a namespace is not seen from it. -/
theorem lookup?_perform {request : Request} {ns : Namespace}
    (outside : ∀ definition ∈ table.definition? request, ¬definition.1.Encloses ns) :
    (table.perform request).lookup? name ns = table.lookup? name ns := by
  -- Both look-ups search the same scopes, which have the same symbols.
  have same : ∀ owner, owner.Encloses ns →
      Entries.get? (owner, name) (table.perform request).symbols =
        Entries.get? (owner, name) table.symbols := by
    intro owner around
    cases noted : table.definition? request with
    | none => rw [perform_symbols noted]
    | some definition =>
      cases request with
      | push | pop => cases noted
      | define symbol place =>
        cases noted
        rw [perform, get?_define, if_neg]
        rintro ⟨⟩
        exact outside _ rfl around
  refine Option.ext fun ⟨owner, symbol⟩ => ?_
  rw [lookup?_eq_some_iff, lookup?_eq_some_iff]
  refine and_congr_right fun around => ?_
  rw [same owner around]
  refine and_congr_right fun _ => forall₂_congr fun inner around => ?_
  rw [same inner around]

/-! ### Scopes without a name -/

/-- Scopes opened without a name at different counts have different names. -/
theorem anonymousName_inj {a b : Nat} : anonymousName a = anonymousName b ↔ a = b := by
  -- The number is read back from the name.
  constructor
  · intro same
    exact Nat.repr_injective (by simpa [anonymousName] using same)
  · rintro rfl
    rfl

/-- The count of scopes without a name never goes down. -/
theorem anonymous_le_perform (table : ScopeTable) (request : Request) :
    table.anonymous ≤ (table.perform request).anonymous := by
  -- By cases on the request; only one counts.
  cases request with
  | push name =>
    cases name with
    | none => exact Nat.le_succ _
    | some => exact Nat.le_refl _
  | pop =>
    unfold perform pop
    cases table.current.parent? <;> exact Nat.le_refl _
  | define => exact Nat.le_refl _

/-- A scope that is entered without a name is named by the count, which goes up. -/
theorem unnamedScope?_eq_some {request : Request} {scope : Namespace}
    (entered : table.unnamedScope? request = some scope) :
    scope = table.current.child (anonymousName table.anonymous) ∧
      (table.perform request).anonymous = table.anonymous + 1 := by
  -- By cases on the request; only one enters such a scope.
  cases request with
  | push name =>
    cases name with
    | none =>
      cases entered
      exact ⟨rfl, rfl⟩
    | some => cases entered
  | pop | define => cases entered

/-- Scopes that are entered without a name are named by counts not reached before. -/
theorem exists_of_mem_noted {requests : List Request} {scope : Namespace}
    (entered : scope ∈ noted unnamedScope? table requests) :
    ∃ (outer : Namespace) (count : Nat), scope = outer.child (anonymousName count) ∧
      table.anonymous ≤ count := by
  -- By induction on the requests.
  induction requests generalizing table with
  | nil => cases entered
  | cons request rest ih =>
    rcases List.mem_append.1 entered with now | later
    · obtain ⟨rfl, -⟩ := unnamedScope?_eq_some (Option.mem_toList.1 now)
      exact ⟨_, _, rfl, Nat.le_refl _⟩
    · obtain ⟨outer, count, named, less⟩ := ih later
      exact ⟨outer, count, named, Nat.le_trans (table.anonymous_le_perform request) less⟩

/-- No scope is entered twice without a name. -/
theorem nodup_noted (table : ScopeTable) (requests : List Request) :
    (noted unnamedScope? table requests).Nodup := by
  -- By induction on the requests, those behind the first having higher counts.
  induction requests generalizing table with
  | nil => exact List.nodup_nil
  | cons request rest ih =>
    refine List.nodup_append.2 ⟨?_, ih _, ?_⟩
    · cases table.unnamedScope? request <;> simp
    · rintro scope now _ later rfl
      obtain ⟨named, more⟩ := unnamedScope?_eq_some (Option.mem_toList.1 now)
      obtain ⟨outer, count, named', less⟩ := exists_of_mem_noted later
      -- The names would be made of one count.
      have paths := congrArg Namespace.path (named.symm.trans named')
      simp only [Namespace.child, List.append_singleton_inj, anonymousName_inj] at paths
      omega

/-! ### Every run -/

/-- What a new table shows after any requests. A name leads from a namespace to the innermost scope
around it in which the name was ever defined, and to the latest definition there; it leads nowhere
if and only if there is no such scope. Opening and leaving scopes never changes that, and neither
does a definition in a scope that is not around the namespace. No two scopes opened without a name are
the same. -/
theorem lookup_innermost_latest (requests : List Request) (name : String) (ns : Namespace) :
    (∀ owner symbol, (performAll {} requests).lookup? name ns = some (owner, symbol) ↔
      owner.Encloses ns ∧
      (∀ inner, inner.Encloses ns → EverDefined (definitions requests) inner name →
        inner.path.length ≤ owner.path.length) ∧
      symbol.name = name ∧ Latest (definitions requests) owner symbol) ∧
    ((performAll {} requests).lookup? name ns = none ↔
      ∀ owner, owner.Encloses ns → ¬EverDefined (definitions requests) owner name) ∧
    (∀ request, (∀ definition ∈ (performAll {} requests).definition? request,
        ¬definition.1.Encloses ns) →
      ((performAll {} requests).perform request).lookup? name ns =
        (performAll {} requests).lookup? name ns) ∧
    (unnamedScopes requests).Nodup := by
  -- The table shows the history, and each part is about what it shows.
  have shown : (performAll {} requests).Shows (definitions requests) :=
    shows_new.performAll requests
  refine ⟨fun owner symbol => ?_, ?_, fun request => lookup?_perform, nodup_noted {} requests⟩
  · rw [lookup?_eq_some_iff, shown.latest]
    simp only [ne_eq, shown.never, not_not]
    exact and_congr_right fun _ => and_comm
  · rw [lookup?_eq_none_iff]
    simp only [shown.never]

/-- A label with its row. -/
def labelAt (row : Nat) : Symbol :=
  .label { name := "v", pos := { row := row } }

/-- A name that is defined globally and then in a scope, which is left and opened again to define it
anew, with a scope without a name inside each time. -/
def reentering : List Request :=
  [.define (labelAt 1) none, .push (some "a"), .define (labelAt 2) none, .push none, .pop, .pop,
    .push (some "a"), .define (labelAt 3) none, .push none]

/-- Inside the second scope without a name the definition made last is seen, also after one in
another scope, and the two scopes without a name are not the same. -/
theorem reentering_latest :
    (performAll {} reentering).lookup? "v" ⟨["a", "__anonymous1__"]⟩ =
      some (⟨["a"]⟩, labelAt 3) ∧
    ((performAll {} reentering).perform (.define (labelAt 4) (some ⟨["b"]⟩))).lookup? "v"
        ⟨["a", "__anonymous1__"]⟩ = some (⟨["a"]⟩, labelAt 3) ∧
    unnamedScopes reentering = [⟨["a", "__anonymous0__"]⟩, ⟨["a", "__anonymous1__"]⟩] ∧
    (unnamedScopes reentering).Nodup := by
  -- The look-up is evaluated, and the theorem says that it stays.
  obtain ⟨-, -, kept, distinct⟩ :=
    lookup_innermost_latest reentering "v" ⟨["a", "__anonymous1__"]⟩
  have seen : (performAll {} reentering).lookup? "v" ⟨["a", "__anonymous1__"]⟩ =
      some (⟨["a"]⟩, labelAt 3) := by rfl
  refine ⟨seen, ?_, by decide +kernel, distinct⟩
  rw [kept _ ?_]
  · exact seen
  · -- The other scope is not around the namespace.
    rintro _ ⟨⟩
    decide

end ScopeTable

end CrossAsm
