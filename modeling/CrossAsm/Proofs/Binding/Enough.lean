import Mathlib.Data.List.Perm.Subperm
import Mathlib.Data.List.ProdSigma
import Mathlib.Logic.Relation
import Mathlib.Tactic.Ring
import CrossAsm.Proofs.Binding.Questions

/-! Enough definitions: the number that binding follows is never too small. A chain of questions that
is longer leads from a question back to itself, and then no number would do. -/

namespace CrossAsm

/-! ### The questions that can come up -/

/-- What follows the first dot of a name is shorter. -/
theorem Text.splitHead_length {name head rest : String}
    (split : Text.splitHead name = some (head, rest)) : rest.length < name.length := by
  -- The name is cut into what stands before the dot, the dot and the rest.
  obtain ⟨⟨before, after⟩, cut, same⟩ := Option.map_eq_some_iff.1 split
  obtain ⟨-, rfl⟩ := Prod.mk.inj same
  have shorter := Text.cutAtDot_length cut
  rwa [String.length_ofList, ← String.length_toList]

/-- What follows the head of a path is what follows its first dot. -/
theorem View.splitHead_of_headOf {path rest : String} (onward : (headOf path).2 = some rest) :
    ∃ head, Text.splitHead path = some (head, rest) := by
  -- A path has a rest only where it has a dot.
  unfold headOf at onward
  split at onward
  · rename_i head tail cut
    cases onward
    exact ⟨head, cut⟩
  · cases onward

/-- A path and what follows each of its dots, which is looked up from the function before the dot. -/
def hops (ns : Namespace) (path : String) : List (Namespace × String) :=
  match _split : Text.splitHead path with
  | none => [(ns, path)]
  | some (head, rest) => (ns, path) :: hops (Namespace.global.child head) rest
termination_by path.length
decreasing_by exact Text.splitHead_length _split

/-- A path is the first of its own. -/
theorem mem_hops_self (ns : Namespace) (path : String) : (ns, path) ∈ hops ns path := by
  -- Whether a dot follows or not, the whole path comes first.
  rw [hops]
  split <;> exact List.mem_cons_self

/-- What follows the first dot of one of them is another one. -/
theorem mem_hops_of_split {ns owner : Namespace} {path text head rest : String}
    (inside : (owner, text) ∈ hops ns path) (split : Text.splitHead text = some (head, rest)) :
    (Namespace.global.child head, rest) ∈ hops ns path := by
  -- By the recursion that lists them: each is split off the one before.
  fun_induction hops ns path with
  | case1 ns path whole =>
    -- Nothing follows a dot where there is none.
    obtain ⟨rfl, rfl⟩ := Prod.mk.inj (List.mem_singleton.1 inside)
    cases whole.symm.trans split
  | case2 ns path first tail cut ih =>
    rcases List.mem_cons.1 inside with same | later
    · obtain ⟨rfl, rfl⟩ := Prod.mk.inj same
      cases cut.symm.trans split
      exact List.mem_cons_of_mem _ (mem_hops_self ..)
    · exact List.mem_cons_of_mem _ (ih later)

/-- There are no more of them than characters, and the path itself. -/
theorem length_hops (ns : Namespace) (path : String) : (hops ns path).length ≤ path.length + 1 := by
  -- Each one is shorter than the one before, so their number is bounded by the length.
  fun_induction hops ns path with
  | case1 => simp
  | case2 ns path first tail cut ih =>
    have shorter := Text.splitHead_length cut
    rw [List.length_cons]
    omega

namespace Question

/-- The names that are looked up for a question, or may be further on. -/
def places (ns : Namespace) : Question → List (Namespace × String)
  | .name path | .sizeof path | .fieldOffset _ path => hops ns path
  | .typeSize _ => []

/-- The types that are looked up for a question. -/
def types (ns : Namespace) : Question → List (Namespace × String)
  | .name _ | .sizeof _ => []
  | .typeSize type | .fieldOffset type _ => [(ns, type)]

/-- There are no more names and types than a question weighs. -/
theorem length_places_add_types (q : Question) (ns : Namespace) :
    (q.places ns).length + (q.types ns).length ≤ q.weight := by
  -- Only the path of a question is looked up part by part; a type is one name.
  cases q with
  | typeSize => exact Nat.le_refl 1
  | name path | sizeof path | fieldOffset _ path =>
    have few := length_hops ns path
    simp only [places, types, weight, List.length_nil, List.length_singleton]
    omega

end Question

/-- The questions of a symbol's definition. -/
def Symbol.questions : Symbol → List Question
  | .var v => arrayQuestions v.type v.dim ++ (v.address.map Expr.questions).getD []
  | .type (.struct d) => d.fields.flatMap fun field => arrayQuestions field.type field.dim
  | .type (.typedef d) => arrayQuestions d.type d.dim
  | .type (.enum _) | .function _ | .label _ => []

/-- The weight of questions together. -/
def totalWeight (questions : List Question) : Nat :=
  total (questions.map Question.weight)

/-- Questions weigh beside each other. -/
theorem totalWeight_append (first second : List Question) :
    totalWeight (first ++ second) = totalWeight first + totalWeight second := by
  -- The weight is a sum over the questions.
  rw [totalWeight, List.map_append, total_append, ← totalWeight, ← totalWeight]

/-- The questions of an expression together weigh no more than the expression, either. -/
theorem Expr.totalWeight_questions (e : Expr) : totalWeight e.questions ≤ e.weight := by
  -- A question weighs what the name or the size does that asks it.
  induction e with
  | number | ref => exact Nat.zero_le _
  | name | sizeof => exact Nat.le_refl _
  | unary op e ih => exact Nat.le_succ_of_le ih
  | binary op l r left right =>
    rw [Expr.questions, totalWeight_append, Expr.weight]
    omega

/-- The questions of an array weigh no more than its dimension, and one for its type. -/
theorem totalWeight_arrayQuestions (type : String) (dim : Dim) :
    totalWeight (arrayQuestions type dim) ≤ dim.weight + 1 := by
  -- The length of an array is an expression, whose questions were counted before.
  have lengths : totalWeight dim.questions ≤ dim.weight := by
    cases dim with
    | scalar | unsized => exact Nat.zero_le _
    | sized length => exact Nat.le_succ_of_le length.totalWeight_questions
  simp only [totalWeight, arrayQuestions, List.map_cons, total_cons, Question.weight] at lengths ⊢
  omega

/-- The questions of a symbol weigh no more than the symbol. -/
theorem Symbol.totalWeight_questions (symbol : Symbol) :
    totalWeight symbol.questions ≤ symbol.weight := by
  -- A variable asks for its address and its array, a type for its fields or its target.
  rcases symbol with var | func | label | (d | d | d)
  · -- The address of a variable is one of its parts.
    have address : totalWeight ((var.address.map Expr.questions).getD []) ≤
        (var.address.map Expr.weight).getD 0 := by
      cases var.address with
      | none => exact Nat.zero_le _
      | some e => exact e.totalWeight_questions
    have array := totalWeight_arrayQuestions var.type var.dim
    rw [questions, totalWeight_append, weight]
    omega
  · exact Nat.zero_le _
  · exact Nat.zero_le _
  · rw [questions, weight]
    refine Nat.le_succ_of_le ?_
    -- Field by field.
    induction d.fields with
    | nil => exact Nat.zero_le _
    | cons field others ih =>
      have array := totalWeight_arrayQuestions field.type field.dim
      rw [List.flatMap_cons, totalWeight_append, List.map_cons, total_cons]
      omega
  · -- A typedef asks for its array, and an enumeration for nothing.
    have array := totalWeight_arrayQuestions d.type d.dim
    rw [questions, weight]
    omega
  · exact Nat.zero_le _

/-- The questions of all definitions of a table, each from the namespace it is asked from. -/
def ScopeTable.asked (table : ScopeTable) : List (Namespace × Question) :=
  table.symbols.flatMap fun entry => entry.2.questions.map (entry.1.1, ·)

/-- The questions of a definition that a name leads to are among them. -/
theorem ScopeTable.mem_asked {table : ScopeTable} {path : String} {ns owner : Namespace}
    {symbol : Symbol} {q : Question} (found : table.lookup? path ns = some (owner, symbol))
    (inside : q ∈ symbol.questions) : (owner, q) ∈ table.asked :=
  List.mem_flatMap.2 ⟨_, Entries.mem_of_get? (get?_of_lookup? found),
    List.mem_map.2 ⟨q, inside, rfl⟩⟩

section Reachable

variable (asked : List (Namespace × Question))

/-- The names that may be looked up for questions. -/
def allPlaces : List (Namespace × String) :=
  asked.flatMap fun entry => entry.2.places entry.1

/-- The types that may be looked up for questions. -/
def allTypes : List (Namespace × String) :=
  asked.flatMap fun entry => entry.2.types entry.1

/-- The questions that may come up after others. -/
def reachable : List (Namespace × Question) :=
  (allPlaces asked).map (fun place => (place.1, .name place.2)) ++
  (allPlaces asked).map (fun place => (place.1, .sizeof place.2)) ++
  (allPlaces asked ++ allTypes asked).map (fun type => (type.1, .typeSize type.2)) ++
  (allTypes asked ×ˢ allPlaces asked).map fun pair =>
    (pair.1.1, .fieldOffset pair.1.2 pair.2.2)

variable {asked} {ns owner : Namespace} {q : Question} {path type text : String}

@[simp]
theorem mem_reachable_name :
    (ns, .name path) ∈ reachable asked ↔ (ns, path) ∈ allPlaces asked := by
  simp [reachable]

@[simp]
theorem mem_reachable_sizeof :
    (ns, .sizeof path) ∈ reachable asked ↔ (ns, path) ∈ allPlaces asked := by
  simp [reachable]

@[simp]
theorem mem_reachable_typeSize :
    (ns, .typeSize type) ∈ reachable asked ↔
      (ns, type) ∈ allPlaces asked ∨ (ns, type) ∈ allTypes asked := by
  simp [reachable]

@[simp]
theorem mem_reachable_fieldOffset :
    (ns, .fieldOffset type path) ∈ reachable asked ↔
      (ns, type) ∈ allTypes asked ∧ ∃ owner, (owner, path) ∈ allPlaces asked := by
  simp [reachable]

/-- A type of a question is one of all. -/
theorem mem_allTypes (inside : (ns, q) ∈ asked) (among : (owner, text) ∈ q.types ns) :
    (owner, text) ∈ allTypes asked :=
  List.mem_flatMap.2 ⟨_, inside, among⟩

/-- A name of a question is one of all. -/
theorem mem_allPlaces (inside : (ns, q) ∈ asked) (among : (owner, text) ∈ q.places ns) :
    (owner, text) ∈ allPlaces asked :=
  List.mem_flatMap.2 ⟨_, inside, among⟩

/-- What follows the first dot of a name is looked up as well. -/
theorem mem_allPlaces_of_split {head rest : String} (inside : (owner, text) ∈ allPlaces asked)
    (split : Text.splitHead text = some (head, rest)) :
    (Namespace.global.child head, rest) ∈ allPlaces asked := by
  -- It is looked up for the same question that asked for the whole name.
  obtain ⟨⟨ns, q⟩, first, among⟩ := List.mem_flatMap.1 inside
  refine List.mem_flatMap.2 ⟨(ns, q), first, ?_⟩
  cases q with
  | typeSize => cases among
  | name | sizeof | fieldOffset => exact mem_hops_of_split among split

/-- What is asked may come up. -/
theorem mem_reachable (inside : (ns, q) ∈ asked) : (ns, q) ∈ reachable asked := by
  -- A question asks for its whole path first, and that is one of its places.
  cases q with
  | name path => exact mem_reachable_name.2 (mem_allPlaces inside (mem_hops_self ..))
  | sizeof path => exact mem_reachable_sizeof.2 (mem_allPlaces inside (mem_hops_self ..))
  | typeSize type =>
    exact mem_reachable_typeSize.2 (.inr (mem_allTypes inside (List.mem_singleton.2 rfl)))
  | fieldOffset type path =>
    exact mem_reachable_fieldOffset.2 ⟨mem_allTypes inside (List.mem_singleton.2 rfl), _,
      mem_allPlaces inside (mem_hops_self ..)⟩

/-- What is asked next may come up. -/
theorem mem_reachable_of_asks {table : ScopeTable} {move : Move} {q' : Question}
    (known : table.asked ⊆ asked) (inside : (ns, q) ∈ reachable asked)
    (asks : table.Asks ns q move q') : (move.ns, q') ∈ reachable asked := by
  -- Questions of a definition are known; what else is asked is about a type of one or about a part
  -- of the same path.
  have typed : ∀ {name type : String} {dim : Dim} {ns owner : Namespace} {symbol : Symbol},
      table.lookup? name ns = some (owner, symbol) →
      arrayQuestions type dim ⊆ symbol.questions → (owner, type) ∈ allTypes asked :=
    fun found part => mem_allTypes
      (known (ScopeTable.mem_asked found (part List.mem_cons_self))) (List.mem_singleton.2 rfl)
  have listed : ∀ {d : StructDef} {field : Field}, field ∈ d.fields →
      arrayQuestions field.type field.dim ⊆ (Symbol.type (.struct d)).questions :=
    fun among q inside => List.mem_flatMap.2 ⟨_, among, inside⟩
  cases asks with
  | @address _ owner var e _ names fixed inside =>
    -- An address is part of a variable.
    have part : q' ∈ (Symbol.var var).questions :=
      List.mem_append_right _ (by simpa [fixed] using inside)
    cases names with
    | whole found => exact mem_reachable (known (ScopeTable.mem_asked found part))
    | head _ _ found => exact mem_reachable (known (ScopeTable.mem_asked found part))
  | member _ split found =>
    -- A member is looked for in the type of the variable, with what is left of the path.
    exact mem_reachable_fieldOffset.2 ⟨typed found (List.subset_append_left _ _), _,
      mem_allPlaces_of_split (mem_reachable_name.1 inside) split⟩
  | inFunction _ split found =>
    -- Inside of a function the rest of the path is asked for.
    exact mem_reachable_name.2 (mem_allPlaces_of_split (mem_reachable_name.1 inside) split)
  | elements found among =>
    -- The length of an array is part of the definition, and so are fields and targets.
    exact mem_reachable (known (ScopeTable.mem_asked found (List.mem_append_left _ among)))
  | asType => exact mem_reachable_typeSize.2 (.inl (mem_reachable_sizeof.1 inside))
  | fields _ found among inside =>
    exact mem_reachable (known (ScopeTable.mem_asked found (listed among inside)))
  | target _ found inside => exact mem_reachable (known (ScopeTable.mem_asked found inside))
  | before found among inside =>
    exact mem_reachable
      (known (ScopeTable.mem_asked found (listed (List.takeWhile_subset _ among) inside)))
  | @within _ path rest owner d field found first onward =>
    -- Inside of a field the rest of the path is asked for, in the type of the field.
    obtain ⟨-, _, placed⟩ := mem_reachable_fieldOffset.1 inside
    obtain ⟨head, split⟩ := View.splitHead_of_headOf onward
    exact mem_reachable_fieldOffset.2 ⟨typed found (listed (List.mem_of_find?_eq_some first)), _,
      mem_allPlaces_of_split placed split⟩
  | renamed found scalar =>
    exact mem_reachable_fieldOffset.2
      ⟨typed found (List.Subset.refl _), (mem_reachable_fieldOffset.1 inside).2⟩

/-- There are no more questions than the square of what is asked weighs, and a little. -/
theorem length_reachable (asked : List (Namespace × Question)) :
    (reachable asked).length ≤
      totalWeight (asked.map Prod.snd) * (totalWeight (asked.map Prod.snd) + 3) := by
  -- A question is made of a place or a type, or of one of each.
  have few : (allPlaces asked).length + (allTypes asked).length ≤
      totalWeight (asked.map Prod.snd) := by
    induction asked with
    | nil => exact Nat.le_refl 0
    | cons entry others ih =>
      have here := entry.2.length_places_add_types entry.1
      simp only [allPlaces, allTypes, List.flatMap_cons, List.length_append, totalWeight,
        List.map_cons, total_cons] at ih ⊢
      omega
  -- Any type may be asked for any path, so the questions about members are their product.
  have count : (reachable asked).length = 3 * (allPlaces asked).length +
      (allTypes asked).length + (allTypes asked).length * (allPlaces asked).length := by
    simp only [reachable, List.length_append, List.length_map, List.length_product]
    omega
  generalize (allPlaces asked).length = places at few count
  generalize (allTypes asked).length = types at few count
  generalize totalWeight (asked.map Prod.snd) = weight at few ⊢
  have product : types * places ≤ weight * weight := Nat.mul_le_mul (by omega) (by omega)
  rw [count, Nat.mul_add]
  omega

end Reachable

/-! ### Long chains of questions -/

namespace ScopeTable

/-- A question leads to another one without a definition being entered in between. -/
def Leads (table : ScopeTable) (first second : Namespace × Question) : Prop :=
  table.Asks first.1 first.2 (.across second.1) second.2

/-- The full names of all definitions. -/
def keys (table : ScopeTable) : List String :=
  table.symbols.map fun entry => entry.1.1.qualify entry.2.name

/-- A definition that a question enters has its full name among those. -/
theorem mem_keys {table : ScopeTable} {ns owner : Namespace} {q q' : Question} {name : String}
    (asks : table.Asks ns q (.into owner name) q') : owner.qualify name ∈ table.keys := by
  -- Whatever is entered was found by looking up a name, so it stands in the table.
  have listed : ∀ {path : String} {symbol : Symbol},
      table.lookup? path ns = some (owner, symbol) → owner.qualify symbol.name ∈ table.keys :=
    fun found => List.mem_map.2 ⟨_, Entries.mem_of_get? (get?_of_lookup? found), rfl⟩
  cases asks with
  | address names =>
    cases names with
    | whole found => exact listed found
    | head _ _ found => exact listed found
  | fields _ found => exact listed found
  | target _ found => exact listed found
  | renamed found => exact listed found

end ScopeTable

namespace View

/-- The number of definitions that are not being followed. -/
def unfollowed (view : View) : Nat :=
  (view.scopes.keys.filter (· ∉ view.trail)).length

/-- What a view that goes on has in common with the one before. -/
theorem go_same {view view' : View} {move : Move} (went : view.go move = .ok view') :
    view'.scopes = view.scopes ∧ view'.ns = move.ns ∧ view'.pos = view.pos := by
  -- Going on changes the namespace, and the trail where a definition is entered.
  cases move with
  | across ns =>
    cases went
    exact ⟨rfl, rfl, rfl⟩
  | into ns name =>
    simp only [go, enter] at went
    split at went
    · cases went
    · cases went
      exact ⟨rfl, rfl, rfl⟩

/-- A definition that is entered is followed from then on. -/
theorem unfollowed_lt {view view' : View} {ns : Namespace} {name : String}
    (went : view.go (.into ns name) = .ok view') (known : ns.qualify name ∈ view.scopes.keys) :
    view'.unfollowed < view.unfollowed := by
  -- It was not on the trail before, or else it could not be entered.
  simp only [go, enter] at went
  split at went
  · cases went
  · rename_i fresh
    cases went
    simp only [List.contains_eq_mem, decide_eq_true_eq] at fresh
    exact length_unpassed_lt known fresh

/-- A chain of questions, each with something that holds a number of questions before the end, leads
from a question back to itself, and no definition is entered in between. -/
def Returns (holds : Nat → View → Question → Prop) (table : ScopeTable) : Prop :=
  ∃ view q low high, low < high ∧ holds low view q ∧ holds high view q ∧ view.scopes = table ∧
    Relation.TransGen table.Leads (view.ns, q) (view.ns, q)

/-- The questions since a definition was last entered, each with something that holds a greater number
of questions before the end, and each leading to the one at hand. -/
def Earlier (holds : Nat → View → Question → Prop) (n : Nat) (view : View) (q : Question)
    (visited : List (Namespace × Question)) : Prop :=
  ∀ v ∈ visited, ∃ high, n < high ∧ holds high (view.moved v.1) v.2 ∧
    Relation.TransGen view.scopes.Leads v (view.ns, q)

variable {holds : Nat → View → Question → Prop} {n : Nat} {view view' : View} {q q' : Question}
  {visited : List (Namespace × Question)}

/-- A question that has come up already is where a chain returns. -/
theorem Earlier.returns (earlier : Earlier holds n view q visited) (start : holds n view q)
    (again : (view.ns, q) ∈ visited) : Returns holds view.scopes := by
  -- The question is on the trail, and the trail leads on to where it comes up again.
  obtain ⟨high, more, before, leads⟩ := earlier _ again
  exact ⟨view, q, n, high, more, start, before, rfl, leads⟩

/-- The question at hand is an earlier one when another one is asked from a namespace. -/
theorem Earlier.cons {ns : Namespace} (earlier : Earlier holds (n + 1) view q visited)
    (start : holds (n + 1) view q) (asks : view.scopes.Asks view.ns q (.across ns) q') :
    Earlier holds n (view.moved ns) q' ((view.ns, q) :: visited) := by
  -- The question at hand needs one more than the next, and it leads to it directly.
  intro v inside
  have leads : view.scopes.Leads (view.ns, q) (ns, q') := asks
  rcases List.mem_cons.1 inside with rfl | before
  · exact ⟨n + 1, Nat.lt_succ_self n, start, .single leads⟩
  · obtain ⟨high, more, held, onward⟩ := earlier v before
    exact ⟨high, by omega, held, onward.tail leads⟩

/-- A chain of questions returns if it is longer than there are questions for each definition that is
not followed yet, and once more. -/
theorem returns_of_long
    (steps : ∀ {n view q}, holds (n + 1) view q → ∃ move q' view',
      view.scopes.Asks view.ns q move q' ∧ view.go move = .ok view' ∧ holds n view' q')
    {table : ScopeTable} {all : List (Namespace × Question)}
    (closed : ∀ {ns q move q'}, (ns, q) ∈ all → table.Asks ns q move q' → (move.ns, q') ∈ all)
    (sees : view.scopes = table) (inside : (view.ns, q) ∈ all) (start : holds n view q)
    (nodup : visited.Nodup) (known : visited ⊆ all) (earlier : Earlier holds n view q visited)
    (long : all.length * (view.unfollowed + 1) ≤ n + visited.length) : Returns holds table := by
  -- As long as no question comes up again the list of those since a definition was last entered
  -- grows, but not beyond the number of all questions.
  induction n generalizing view q visited with
  | zero =>
    by_cases again : (view.ns, q) ∈ visited
    · exact sees ▸ earlier.returns start again
    · have few : visited.length + 1 ≤ all.length :=
        ((List.nodup_cons.2 ⟨again, nodup⟩).subperm (List.cons_subset.2 ⟨inside, known⟩)).length_le
      rw [Nat.mul_add] at long
      omega
  | succ n ih =>
    by_cases again : (view.ns, q) ∈ visited
    · exact sees ▸ earlier.returns start again
    have fresh : ((view.ns, q) :: visited).Nodup := List.nodup_cons.2 ⟨again, nodup⟩
    have listed : (view.ns, q) :: visited ⊆ all := List.cons_subset.2 ⟨inside, known⟩
    have few : visited.length + 1 ≤ all.length := (fresh.subperm listed).length_le
    obtain ⟨move, q', view', asks, went, onward⟩ := steps start
    obtain ⟨scopes, there, -⟩ := go_same went
    have inside' : (view'.ns, q') ∈ all := there ▸ closed inside (sees ▸ asks)
    cases move with
    | across ns =>
      cases went
      have scopes : (view.moved ns).scopes = table := sees
      have same : (view.moved ns).unfollowed = view.unfollowed := rfl
      refine ih scopes inside' onward fresh listed (earlier.cons start asks) ?_
      rw [List.length_cons, same]
      omega
    | into ns name =>
      -- Behind a definition that is entered the list starts anew.
      have less := unfollowed_lt went (ScopeTable.mem_keys asks)
      refine ih (scopes.trans sees) inside' onward List.nodup_nil (List.nil_subset _) nofun ?_
      have fewer : all.length * (view'.unfollowed + 1) ≤ all.length * view.unfollowed :=
        Nat.mul_le_mul_left _ less
      rw [Nat.mul_add] at long
      simp only [List.length_nil]
      omega

/-! ### More definitions change nothing -/

/-- Answers that are the same, unless too few definitions could be followed for the first. -/
theorem coherent_kept (pos : Pos) :
    Coherent fun _ x y => x ≠ .error (.endlessDefinition pos) → y = x := by
  -- An error of the first question is one of the whole, so it is not the one that is left out.
  refine ⟨fun _ _ => rfl, fun _ _ => rfl, ?_⟩
  intro α β x y f g first rest decided
  cases x with
  | error e =>
    have same : y = .error e := first fun same => decided (by cases same; rfl)
    rw [same]
    rfl
  | ok a =>
    rw [first nofun]
    exact rest a decided

/-- More definitions change no answer that did not need them. -/
theorem ask_kept {m : Nat} (more : m ≤ n)
    (decided : view.ask m q ≠ .error (.endlessDefinition view.pos)) :
    view.ask n q = view.ask m q := by
  -- By induction on the smaller number: both views follow the same definitions all along, and only
  -- the first can run out of them.
  induction m generalizing n view q with
  | zero => exact absurd (ask_zero view q) decided
  | succ m ih =>
    obtain _ | n := n
    · omega
    refine (coherent_kept view.pos).ask_succ (.refl view) (fun _ _ asks a' b' left right => ?_)
      (entersFor_of_same (fun _ _ _ => rfl) q) decided
    cases left.symm.trans right
    obtain ⟨-, -, pos⟩ := go_same left
    exact pos ▸ ih (by omega)

/-- A question that needs a number of definitions, and one more. -/
def Needs (n : Nat) (view : View) (q : Question) : Prop :=
  view.ask n q = .error (.endlessDefinition view.pos) ∧
    view.ask (n + 1) q ≠ .error (.endlessDefinition view.pos)

/-- It asks one that needs one less. -/
theorem Needs.asks (needs : Needs (n + 1) view q) : ∃ move q' view',
    view.scopes.Asks view.ns q move q' ∧ view.go move = .ok view' ∧ Needs n view' q' := by
  -- Suppose that none of the questions it asks needs one less.
  by_contra none
  simp only [not_exists, not_and] at none
  -- If none of those that it asks did, it would have been answered before.
  have same : view.ask (n + 1 + 1) q ≠ .error (.endlessDefinition view.pos) →
      view.ask (n + 1) q = view.ask (n + 1 + 1) q := by
    refine (coherent_kept view.pos).ask_succ (.refl view)
      (fun _ q' asks a' b' left right => ?_) (entersFor_of_same (fun _ _ _ => rfl) q)
    cases left.symm.trans right
    obtain ⟨-, -, pos⟩ := go_same left
    intro decided
    rw [← pos] at decided
    by_cases early : a'.ask n q' = .error (.endlessDefinition a'.pos)
    · exact absurd ⟨early, decided⟩ (none _ _ _ asks left)
    · exact (ask_kept (Nat.le_succ n) early).symm
  exact needs.2 (same needs.2 ▸ needs.1)

/-- No question needs two numbers of definitions. -/
theorem Needs.not_lt {m : Nat} (low : Needs m view q) (high : Needs n view q) : ¬ m < n := by
  -- Where the smaller number is enough, a larger one changes nothing.
  intro less
  have decided := low.2
  rw [← ask_kept less low.2] at decided
  exact decided high.1

/-- The questions that may come up after one. -/
def comingUp (view : View) (q : Question) : List (Namespace × Question) :=
  reachable ((view.ns, q) :: view.scopes.asked)

/-- The definitions of a table weigh more than their questions. -/
theorem totalWeight_asked (table : ScopeTable) :
    totalWeight (table.asked.map Prod.snd) ≤ table.weight ∧
      table.symbols.length ≤ table.weight := by
  -- Symbol by symbol, each of which weighs more than its questions.
  unfold ScopeTable.asked ScopeTable.weight
  induction table.symbols with
  | nil => exact ⟨Nat.le_refl 0, Nat.le_refl 0⟩
  | cons entry others ih =>
    have here := entry.2.totalWeight_questions
    have same : (entry.2.questions.map (entry.1.1, ·)).map Prod.snd = entry.2.questions := by
      rw [List.map_map]
      exact List.map_id _
    rw [List.flatMap_cons, List.map_append, same, totalWeight_append, List.map_cons, total_cons,
      List.length_cons]
    omega

/-- The questions that may come up after one, for each definition that is not followed yet and once
more, are no more than the definitions that binding follows. -/
theorem comingUp_le_fuel {question : Nat} (light : q.weight ≤ question + 2) :
    (view.comingUp q).length * (view.unfollowed + 1) ≤ view.fuel question := by
  -- What may come up is bounded by a square, and what is not followed yet by a line.
  obtain ⟨known, symbols⟩ := totalWeight_asked view.scopes
  have few : view.unfollowed ≤ view.scopes.symbols.length := by
    have keys : view.scopes.keys.length = view.scopes.symbols.length := List.length_map _
    exact keys ▸ List.length_filter_le _ _
  have all : (view.comingUp q).length ≤ _ := length_reachable ((view.ns, q) :: view.scopes.asked)
  have together : totalWeight (((view.ns, q) :: view.scopes.asked).map Prod.snd) ≤
      q.weight + view.scopes.weight := Nat.add_le_add_left known _
  generalize totalWeight (((view.ns, q) :: view.scopes.asked).map Prod.snd) = weight at all together
  rw [fuel]
  generalize large : view.scopes.weight + question + 4 = size
  -- The questions are fewer than the square of the size, and the definitions than the size.
  have square : weight * (weight + 3) ≤ size * size := by
    have wide : (weight + 2) * (weight + 2) ≤ size * size := Nat.mul_le_mul (by omega) (by omega)
    have split : (weight + 2) * (weight + 2) = weight * (weight + 3) + weight + 4 := by ring
    omega
  have line : view.unfollowed + 1 ≤ size := by omega
  calc (view.comingUp q).length * (view.unfollowed + 1)
      ≤ size * size * size := Nat.mul_le_mul (Nat.le_trans all square) line
    _ ≤ size * size * size * size := Nat.le_mul_of_pos_right _ (by omega)

/-- However many definitions may be followed, the answer is the same from that number on. -/
theorem ask_enough {question : Nat} (light : q.weight ≤ question + 2)
    (more : view.fuel question ≤ n) : view.ask n q = view.ask (view.fuel question) q := by
  -- An answer that is decided with that number stays; an undecided one is undecided for good.
  by_cases decided : view.ask (view.fuel question) q = .error (.endlessDefinition view.pos)
  · -- A question that needed more would lead back to itself, and then need another number as well.
    have never : ∀ k, view.fuel question ≤ k → ¬ Needs k view q := by
      intro k enough needs
      have all : (view.comingUp q).length * (view.unfollowed + 1) ≤ _ := comingUp_le_fuel light
      obtain ⟨_, _, low, high, less, early, late, -⟩ := returns_of_long (fun needs => needs.asks)
        (mem_reachable_of_asks (List.subset_cons_self _ _)) rfl (mem_reachable List.mem_cons_self)
        needs List.nodup_nil (List.nil_subset _) nofun (Nat.le_trans all enough)
      exact early.not_lt late less
    rw [decided]
    obtain ⟨extra, rfl⟩ := Nat.exists_eq_add_of_le more
    clear more
    induction extra with
    | zero => exact decided
    | succ extra ih =>
      by_contra later
      exact never _ (Nat.le_add_right _ extra) ⟨ih, later⟩
  · exact ask_kept more decided

/-- A longer question allows no fewer definitions to be followed. -/
theorem fuel_mono (view : View) {question question' : Nat} (longer : question ≤ question') :
    view.fuel question ≤ view.fuel question' := by
  -- The bound is a product, each factor of which grows with the question.
  have size : view.scopes.weight + question + 4 ≤ view.scopes.weight + question' + 4 := by omega
  exact Nat.mul_le_mul (Nat.mul_le_mul (Nat.mul_le_mul size size) size) size

/-- Answers that are the same. -/
theorem coherent_eq : Coherent fun _ x y => y = x := by
  -- Equal answers go on equally.
  refine ⟨fun _ => rfl, fun _ => rfl, ?_⟩
  intro α β x y f g same rest
  rw [same, funext rest]

variable {e : Expr} {type path : String}

/-- An expression is bound to the same however many more definitions may be followed. -/
theorem bind_enough (more : view.fuel e.weight ≤ n) :
    view.bindWith (name n view) (sizeof n view) e = view.bind e :=
  coherent_eq.bindWith (.refl view) fun _ inside =>
    ask_enough (Nat.le_add_right_of_le (Expr.weight_le_of_mem inside)) more

/-- A type has the same size however many more definitions may be followed. -/
theorem sizeOfType_enough (more : view.fuel type.length ≤ n) :
    typeSize n view type = view.sizeOfType type :=
  have light : (Question.typeSize type).weight ≤ type.length + 2 := Nat.le_add_left 1 _
  ask_enough light more

/-- A member has the same offset however many more definitions may be followed. -/
theorem offsetOf_enough (more : view.fuel (type.length + path.length) ≤ n) :
    fieldOffset n view type path = view.offsetOf type path :=
  have light : (Question.fieldOffset type path).weight ≤ type.length + path.length + 2 := by
    rw [Question.weight]
    omega
  ask_enough light more

end View

end CrossAsm
