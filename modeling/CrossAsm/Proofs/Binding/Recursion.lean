import Mathlib.Data.Prod.Lex
import CrossAsm.Proofs.Binding.Enough
import CrossAsm.Proofs.Binding.Failures

/-! Recursion: binding comes to an end unless a search for a member leads back to itself, and every
definition that is found to refer back to itself does so. -/

namespace CrossAsm

/-! ### What definitions refer to -/

/-- A text up to a dot is the first of its parts. -/
theorem Text.splitDots_append {first : List Char} (plain : '.' ∉ first) (rest : List Char) :
    splitDots (first ++ '.' :: rest) = first :: splitDots rest := by
  refine splitDots_of_cut ?_
  -- The dot is the first one.
  induction first with
  | nil => rfl
  | cons c others ih =>
    rw [List.mem_cons, not_or] at plain
    rw [List.cons_append, cutAtDot, ih plain.2, Option.map_some]
    rintro rfl
    exact plain.1 rfl

/-- The parts of a full name are the scopes around it and the name. -/
theorem Namespace.splitDots_qualify {ns : Namespace} {name : String}
    (scopes : ∀ scope ∈ ns.path, '.' ∉ scope.toList) (plain : '.' ∉ name.toList) :
    Text.splitDots (ns.qualify name).toList = (ns.path ++ [name]).map String.toList := by
  -- A name outside of all scopes is its full name; else the scopes come before it.
  have whole : Text.splitDots name.toList = [name.toList] :=
    Text.splitDots_of_uncut (Text.cutAtDot_eq_none plain)
  obtain ⟨path⟩ := ns
  cases path with
  | nil => exact whole
  | cons scope inner =>
    have shown : (qualify ⟨scope :: inner⟩ name).toList =
        ['.'].intercalate ((scope :: inner).map String.toList) ++ '.' :: name.toList := by
      simp [qualify, isGlobal, render, String.toList_intercalate]
    rw [shown]
    clear shown
    -- Scope by scope, from the outermost inward.
    induction inner generalizing scope with
    | nil =>
      have first := scopes scope List.mem_cons_self
      simp [Text.splitDots_append first, whole]
    | cons next inner ih =>
      have first := scopes scope List.mem_cons_self
      have others := ih next fun scope inside => scopes scope (List.mem_cons_of_mem _ inside)
      rw [List.map_cons, List.map_cons, List.intercalate_cons_cons, List.append_assoc,
        List.append_assoc, List.singleton_append, Text.splitDots_append first, ← List.map_cons, others]
      rfl

namespace ScopeTable

variable (table : ScopeTable)

/-- A question from a namespace mentions the definition that it is about, and what a path leads to in
functions. -/
inductive Mentions : Namespace → Question → Namespace × Symbol → Prop
  /-- What the question is about. -/
  | here {ns owner : Namespace} {q : Question} {symbol : Symbol}
    (names : table.Names ns q owner symbol) : Mentions ns q (owner, symbol)
  /-- What stands in a function is looked up from there. -/
  | inFunction {ns owner : Namespace} {path head member : String} {func : FunctionSymbol}
    {d : Namespace × Symbol} (absent : table.lookup? path ns = none)
    (split : Text.splitHead path = some (head, member))
    (found : table.lookup? head ns = some (owner, .function func))
    (further : Mentions (Namespace.global.child head) (.name member) d) :
    Mentions ns (.name path) d

/-- A definition refers to another one if something that is written in it mentions the other. -/
def Refers (written : Symbol → List Question) (d other : Namespace × Symbol) : Prop :=
  ∃ q ∈ written d.2, table.Mentions d.1 q other

/-- A definition stands in the table, under its own name. -/
def Holds (d : Namespace × Symbol) : Prop :=
  Entries.get? (d.1, d.2.name) table.symbols = some d.2

/-- Symbols stand under their own names, and neither these nor the names of scopes have a dot. -/
structure Dotless : Prop where
  /-- A symbol stands under its name. -/
  named : ∀ {ns : Namespace} {name : String} {symbol : Symbol},
    Entries.get? (ns, name) table.symbols = some symbol → symbol.name = name
  /-- Its name has no dot. -/
  names : ∀ {ns : Namespace} {name : String} {symbol : Symbol},
    Entries.get? (ns, name) table.symbols = some symbol → '.' ∉ name.toList
  /-- Neither has that of a scope around it. -/
  scopes : ∀ {ns : Namespace} {name : String} {symbol : Symbol},
    Entries.get? (ns, name) table.symbols = some symbol → ∀ scope ∈ ns.path, '.' ∉ scope.toList

variable {table} {ns owner : Namespace} {q q' : Question} {d other : Namespace × Symbol}

/-- Definitions with one full name are the same. -/
theorem Dotless.eq_of_qualify (dotless : table.Dotless) (holds : table.Holds d)
    (holds' : table.Holds other) (same : d.1.qualify d.2.name = other.1.qualify other.2.name) :
    d = other := by
  -- Without dots in them the scopes and the name can be told apart in the full name.
  have parts := congrArg (fun text => Text.splitDots text.toList) same
  simp only [Namespace.splitDots_qualify (dotless.scopes holds) (dotless.names holds),
    Namespace.splitDots_qualify (dotless.scopes holds') (dotless.names holds')] at parts
  have whole := List.map_injective_iff.2 (fun _ _ => String.toList_inj.1) parts
  obtain ⟨path, name⟩ := List.append_inj' whole rfl
  obtain ⟨⟨_⟩, symbol⟩ := d
  obtain ⟨⟨_⟩, symbol'⟩ := other
  cases path
  unfold Holds at holds holds'
  simp only [List.cons.injEq, and_true] at name
  rw [name] at holds
  cases holds.symm.trans holds'
  rfl

/-- Tables are dotless if their entries are. -/
theorem Dotless.ofEntries (plain : ∀ entry ∈ table.symbols, entry.2.name = entry.1.2 ∧
    '.' ∉ entry.1.2.toList ∧ ∀ scope ∈ entry.1.1.path, '.' ∉ scope.toList) : table.Dotless :=
  ⟨fun found => (plain _ (Entries.mem_of_get? found)).1,
    fun found => (plain _ (Entries.mem_of_get? found)).2.1,
    fun found => (plain _ (Entries.mem_of_get? found)).2.2⟩

/-- What is mentioned stands in the table. -/
theorem Dotless.holds_of_mentions (dotless : table.Dotless) (mentions : table.Mentions ns q d) :
    table.Holds d := by
  -- Whatever is mentioned was looked up, and a name without dots is found where it belongs.
  have stands : ∀ {path : String} {ns owner : Namespace} {symbol : Symbol},
      table.lookup? path ns = some (owner, symbol) → table.Holds (owner, symbol) := by
    intro path ns owner symbol found
    have stored := get?_of_lookup? found
    rw [← dotless.named stored] at stored
    exact stored
  induction mentions with
  | inFunction _ _ _ _ ih => exact ih
  | here names =>
    cases names with
    | whole found | head _ _ found | sizeof found | typeSize found | fieldOffset found =>
      exact stands found

/-- A question about a member mentions no more than one about its type. -/
theorem Mentions.ofMember {type path : String}
    (mentions : table.Mentions ns (.fieldOffset type path) d) :
    table.Mentions ns (.typeSize type) d := by
  -- The only thing that such a question names is the type.
  cases mentions with
  | here names =>
    cases names with
    | fieldOffset found => exact .here (.typeSize found)

/-- A question about a type mentions what the type's name leads to. -/
theorem Mentions.lookup? {type : String} (mentions : table.Mentions ns (.typeSize type) d) :
    table.lookup? type ns = some d := by
  -- There is only one way to mention something here.
  cases mentions with
  | here names =>
    cases names with
    | typeSize found => exact found

/-- A question about a type mentions no more than one that may be about a variable as well. -/
theorem Mentions.ofType {type : String} (mentions : table.Mentions ns (.typeSize type) d) :
    table.Mentions ns (.sizeof type) d :=
  .here (.sizeof mentions.lookup?)

/-- A path into a variable mentions the variable only. -/
theorem Mentions.eq_variable {path head member : String} {var : Variable}
    (mentions : table.Mentions ns (.name path) d) (absent : table.lookup? path ns = none)
    (split : Text.splitHead path = some (head, member))
    (found : table.lookup? head ns = some (owner, .var var)) : d = (owner, .var var) := by
  -- The path itself leads to nothing, so what is named is its head.
  cases mentions with
  | here names =>
    cases names with
    | whole whole => cases absent.symm.trans whole
    | head _ split' found' =>
      cases split.symm.trans split'
      cases found.symm.trans found'
      rfl
  | inFunction _ split' found' =>
    cases split.symm.trans split'
    cases found.symm.trans found'

/-- What a question mentions that is asked for another one: a definition that is mentioned refers to
it, or it is mentioned itself. -/
theorem Mentions.ofAsked (asks : table.Asks ns q (.across owner) q')
    (mentions : table.Mentions owner q' d) :
    table.Mentions ns q d ∨
      ∃ other, table.Mentions ns q other ∧ table.Refers Symbol.questions other d := by
  -- What is asked for stands in the definition that the question is about, unless the question is
  -- only put in another way.
  cases asks with
  | @member _ _ _ _ var absent split found =>
    have typed : .typeSize var.type ∈ (Symbol.var var).questions :=
      List.mem_append_left _ List.mem_cons_self
    exact .inr ⟨_, .here (.head absent split found), _, typed, mentions.ofMember⟩
  | inFunction absent split found => exact .inl (.inFunction absent split found mentions)
  | elements found inside =>
    exact .inr ⟨_, .here (.sizeof found), _, List.mem_append_left _ inside, mentions⟩
  | asType => exact .inl mentions.ofType
  | before found among inside =>
    exact .inr ⟨_, .here (.fieldOffset found), _,
      List.mem_flatMap.2 ⟨_, List.takeWhile_subset _ among, inside⟩, mentions⟩
  | @within _ _ _ _ d field found first onward =>
    have typed : .typeSize field.type ∈ (Symbol.type (.struct d)).questions :=
      List.mem_flatMap.2 ⟨_, List.mem_of_find?_eq_some first, List.mem_cons_self⟩
    exact .inr ⟨_, .here (.fieldOffset found), _, typed, mentions.ofMember⟩

/-- What is asked inside a definition that is entered is written in it. -/
theorem Asks.ofEntered {name : String} (asks : table.Asks ns q (.into owner name) q') :
    ∃ symbol, table.Mentions ns q (owner, symbol) ∧ symbol.name = name ∧
      ∀ d, table.Mentions owner q' d → table.Refers Symbol.questions (owner, symbol) d := by
  -- Where a definition is entered, the question is about an address, a field or a target.
  cases asks with
  | address names fixed inside =>
    refine ⟨_, .here names, rfl, fun d mentions => ⟨q', ?_, mentions⟩⟩
    exact List.mem_append_right _ (by simpa [fixed] using inside)
  | fields _ found among inside =>
    exact ⟨_, .here (.typeSize found), rfl, fun d mentions =>
      ⟨q', List.mem_flatMap.2 ⟨_, among, inside⟩, mentions⟩⟩
  | target _ found inside =>
    exact ⟨_, .here (.typeSize found), rfl, fun d mentions => ⟨q', inside, mentions⟩⟩
  | renamed found scalar =>
    exact ⟨_, .here (.fieldOffset found), rfl, fun d mentions =>
      ⟨_, List.mem_cons_self, mentions.ofMember⟩⟩

/-- An error about a recursive definition names one that refers back to itself. -/
def Confirms (table : ScopeTable) (e : Error) : Prop :=
  ∀ pos key, e = .recursiveDefinition pos key → ∃ d, table.Holds d ∧
    d.1.qualify d.2.name = key ∧ Relation.TransGen (table.Refers Symbol.questions) d d

/-- An error that is found at a definition is about no recursive one. -/
theorem confirms_of_found (table : ScopeTable) (e : Error) (found : e.Found) :
    table.Confirms e := by
  -- None of these errors is the one about recursion.
  rintro pos key rfl
  cases found

end ScopeTable

/-! ### How binding fails -/

namespace View

variable {view view' : View} {q q' : Question} {move : Move} {sort : Error → Prop} {n : Nat}

/-! ### Definitions that are followed -/

/-- Every definition that is followed on the way to a question refers to what the question mentions. -/
def Followed (view : View) (q : Question) : Prop :=
  ∀ key ∈ view.trail, ∃ d, view.scopes.Holds d ∧ d.1.qualify d.2.name = key ∧
    ∀ other, view.scopes.Mentions view.ns q other →
      Relation.TransGen (view.scopes.Refers Symbol.questions) d other

/-- It still does behind a move to the next question. -/
theorem Followed.go (dotless : view.scopes.Dotless) (followed : view.Followed q)
    (asks : view.scopes.Asks view.ns q move q') (went : view.go move = .ok view') :
    view'.Followed q' := by
  -- Going across keeps the trail; entering puts the definition on it that is mentioned.
  cases move with
  | across ns =>
    cases went
    intro key inside
    obtain ⟨d, holds, named, refers⟩ := followed key inside
    refine ⟨d, holds, named, fun other mentions => ?_⟩
    rcases ScopeTable.Mentions.ofAsked asks mentions with same | ⟨between, mentioned, further⟩
    · exact refers other same
    · exact (refers between mentioned).tail further
  | into ns name =>
    obtain ⟨symbol, mentioned, rfl, further⟩ := asks.ofEntered
    simp only [View.go, enter] at went
    split at went
    · cases went
    · cases went
      intro key inside
      -- The definition that is entered refers to what is asked in it, and the others refer to it.
      rcases List.mem_append.1 inside with before | here
      · obtain ⟨d, holds, named, refers⟩ := followed key before
        exact ⟨d, holds, named, fun other mentions =>
          (refers _ mentioned).tail (further other mentions)⟩
      · exact ⟨(ns, symbol), dotless.holds_of_mentions mentioned,
          (List.mem_singleton.1 here).symm, fun other mentions => .single (further other mentions)⟩

/-- A definition that is not entered, because it is being followed already, refers back to itself. -/
theorem Followed.confirms {owner : Namespace} {symbol : Symbol} (dotless : view.scopes.Dotless)
    (followed : view.Followed q) (names : view.scopes.Names view.ns q owner symbol) :
    FailsOnly view.scopes.Confirms (view.enter owner symbol.name) := by
  -- It is on the trail, so that it refers to what is asked, and that names it again.
  unfold enter
  simp only
  split
  · rename_i again
    refine .error ?_
    rintro pos key ⟨⟩
    rw [List.contains_eq_mem, decide_eq_true_eq] at again
    obtain ⟨d, holds, named, refers⟩ := followed _ again
    have mentioned := ScopeTable.Mentions.here names
    cases dotless.eq_of_qualify holds (dotless.holds_of_mentions mentioned) named
    exact ⟨_, holds, named, refers _ mentioned⟩
  · exact .ok _

/-- A definition that is reported as recursive refers back to itself. -/
theorem ask_confirms {table : ScopeTable} (dotless : table.Dotless) (sees : view.scopes = table)
    (followed : view.Followed q) : FailsOnly table.Confirms (view.ask n q) := by
  -- The invariant is that all that is followed refers to what is being asked for.
  induction n generalizing view q with
  | zero =>
    rw [ask_zero]
    exact .error nofun
  | succ n ih =>
    refine (coherent_failsOnly table.confirms_of_found).ask_succ (n := n) (.refl view)
      (fun move q' asks a' b' left right => ?_) fun owner symbol names => ?_
    · obtain ⟨scopes, -⟩ := go_same left
      exact ih (scopes.trans sees) (followed.go (sees ▸ dotless) asks left)
    · have confirms := followed.confirms (sees ▸ dotless) names
      unfold Entered
      cases entered : view.enter owner symbol.name with
      | ok => exact ⟨_, rfl⟩
      | error e => exact fun α k => .error (sees ▸ confirms e entered)

end View

/-! ### Questions that come to an end -/

/-- Not that too many definitions are followed. -/
def Error.NotEndless (e : Error) : Prop :=
  ∀ pos, e ≠ .endlessDefinition pos

/-- No length of a variable has a size in it. -/
def ScopeTable.Sizeless (table : ScopeTable) : Prop :=
  ∀ (ns : Namespace) (name : String) (var : Variable),
    Entries.get? (ns, name) table.symbols = some (.var var) →
    ∀ path, .sizeof path ∉ var.dim.questions

/-- There is none if all variables are scalars. -/
theorem ScopeTable.Sizeless.ofEntries {table : ScopeTable}
    (scalars : ∀ entry ∈ table.symbols, ∀ var, entry.2 = .var var → var.dim = .scalar) :
    table.Sizeless := by
  -- A scalar has no length in which a size could be asked for.
  intro ns name var found path inside
  rw [scalars _ (Entries.mem_of_get? found) var rfl] at inside
  cases inside

/-- Looking for a member never leads back to looking for it, unless a definition is entered on the
way. -/
def ScopeTable.MembersEnd (table : ScopeTable) : Prop :=
  ∀ ns type path,
    ¬ Relation.TransGen table.Leads (ns, .fieldOffset type path) (ns, .fieldOffset type path)

/-- Whether a question is about a member. -/
def Question.OfMember : Question → Prop
  | .fieldOffset .. => True
  | _ => False

/-- How far questions that are not about members may lead, short of a definition that is entered: a
size to names and types, and a name to shorter ones. -/
def Question.reach : Question → ℕ ×ₗ ℕ
  | .sizeof _ => toLex (2, 0)
  | .name path => toLex (1, path.length)
  | .typeSize _ | .fieldOffset .. => toLex (0, 0)

/-- The questions of an expression are about names and sizes. -/
theorem Expr.name_or_sizeof {e : Expr} {q : Question} (inside : q ∈ e.questions) :
    ∃ path, q = .name path ∨ q = .sizeof path := by
  -- By induction on the expression; numbers ask for nothing.
  induction e with
  | number | ref => cases inside
  | name path => exact ⟨path, .inl (List.mem_singleton.1 inside)⟩
  | sizeof path => exact ⟨path, .inr (List.mem_singleton.1 inside)⟩
  | unary op e ih => exact ih inside
  | binary op l r left right => exact (List.mem_append.1 inside).elim left right

namespace ScopeTable

variable {table : ScopeTable} {s t : Namespace × Question}

/-- A question that leads to another one reaches further, or one of the two is about a member. -/
theorem Leads.reach_lt (sizeless : table.Sizeless) (leads : table.Leads s t) :
    s.2.OfMember ∨ t.2.OfMember ∨ t.2.reach < s.2.reach := by
  -- What is asked inside is asked of a shorter path, or of a simpler kind.
  obtain ⟨ns, q⟩ := s
  obtain ⟨owner, q'⟩ := t
  unfold Leads at leads
  cases leads with
  -- One of the two is about a member.
  | member => exact .inr (.inl trivial)
  | inFunction absent split found =>
    -- The rest of the path is shorter.
    refine .inr (.inr (Prod.Lex.toLex_lt_toLex.2 (.inr ⟨rfl, ?_⟩)))
    exact Text.splitHead_length split
  | @elements path owner var q' found inside =>
    refine .inr (.inr ?_)
    -- A size in the length would be as far as the question itself, and then might come round.
    rcases List.mem_cons.1 inside with rfl | inside
    · exact Prod.Lex.toLex_lt_toLex.2 (.inl (by decide))
    · have plain := sizeless _ _ _ (get?_of_lookup? found)
      -- Sizes aside, a length can only ask for names.
      cases dim : var.dim with
      | scalar | unsized =>
        rw [dim] at inside
        cases inside
      | sized length =>
        rw [dim] at inside plain
        obtain ⟨name, rfl | rfl⟩ := length.name_or_sizeof inside
        · exact Prod.Lex.toLex_lt_toLex.2 (.inl (Nat.lt_succ_self 1))
        · exact absurd inside (plain name)
  -- The size of a type is a simpler question than that of a variable.
  | asType => exact .inr (.inr (Prod.Lex.toLex_lt_toLex.2 (.inl (by decide))))
  | before | within => exact .inl trivial

/-- A chain of questions reaches less and less far, or one of them is about a member. -/
theorem Leads.reach_lt_of_transGen (sizeless : table.Sizeless)
    (chain : Relation.TransGen table.Leads s t) :
    t.2.reach < s.2.reach ∨ ∃ m, m.2.OfMember ∧ Relation.ReflTransGen table.Leads s m ∧
      Relation.ReflTransGen table.Leads m t := by
  -- By induction on the chain, as long as no question about a member has come up.
  induction chain with
  | single leads =>
    rcases leads.reach_lt sizeless with first | last | less
    · exact .inr ⟨_, first, .refl, .single leads⟩
    · exact .inr ⟨_, last, .single leads, .refl⟩
    · exact .inl less
  | @tail u t before leads ih =>
    rcases ih with less | ⟨m, member, first, rest⟩
    · rcases leads.reach_lt sizeless with first | last | further
      · exact .inr ⟨u, first, before.to_reflTransGen, .single leads⟩
      · exact .inr ⟨t, last, before.to_reflTransGen.tail leads, .refl⟩
      · exact .inl (further.trans less)
    · exact .inr ⟨m, member, first, rest.tail leads⟩

/-- No question leads back to itself if none about a member does. -/
theorem MembersEnd.irrefl (ends : table.MembersEnd) (sizeless : table.Sizeless) :
    ¬ Relation.TransGen table.Leads s s := by
  -- A chain back to its start reaches no less far, so that a question about a member is on it.
  intro back
  rcases Leads.reach_lt_of_transGen sizeless back with less | ⟨⟨ns, q⟩, member, first, rest⟩
  · exact lt_irrefl _ less
  · -- One that is about a member leads through the whole chain as well.
    cases q with
    | name | sizeof | typeSize => exact member
    | fieldOffset type path =>
      exact ends ns type path ((Relation.TransGen.trans_right rest back).trans_left first)

end ScopeTable

namespace View

variable {view view' : View} {q q' : Question} {move : Move} {n : Nat}

/-- An error that is found at a definition is not that too many of them are followed. -/
theorem notEndless_of_found (e : Error) (found : e.Found) : e.NotEndless := by
  -- None of these errors is the one of an endless definition.
  rintro pos rfl
  cases found

/-- A question that follows more than a number of definitions. -/
def Exhausts (n : Nat) (view : View) (q : Question) : Prop :=
  ¬ FailsOnly Error.NotEndless (view.ask n q)

/-- It asks one that follows one less. -/
theorem Exhausts.asks (exhausts : Exhausts (n + 1) view q) : ∃ move q' view',
    view.scopes.Asks view.ns q move q' ∧ view.go move = .ok view' ∧ Exhausts n view' q' := by
  -- Suppose that none of those it asks followed as many.
  by_contra none
  simp only [not_exists, not_and, Exhausts, not_not] at none
  -- If all that it asks came to an end it would do so itself.
  refine exhausts ((coherent_failsOnly notEndless_of_found).ask_succ (n := n) (.refl view)
    (fun move q' asks a' b' left right => none move q' a' asks left) (entersFor_of_same ?_ q))
  rintro α e ⟨key, rfl⟩
  exact .error nofun

/-- Questions come to an end if none of them leads back to itself. -/
theorem ask_ends {question : Nat} (returns : ∀ s, ¬ Relation.TransGen view.scopes.Leads s s)
    (light : q.weight ≤ question + 2) (more : view.fuel question ≤ n) :
    FailsOnly Error.NotEndless (view.ask n q) := by
  -- A question that runs out is followed by as many questions as may come up, and one returns.
  by_contra endless
  have exhausts : Exhausts n view q := endless
  have all : (view.comingUp q).length * (view.unfollowed + 1) ≤ _ := comingUp_le_fuel light
  obtain ⟨_, _, _, _, -, -, -, -, back⟩ := returns_of_long (fun exhausts => exhausts.asks)
    (mem_reachable_of_asks (List.subset_cons_self _ _)) rfl (mem_reachable List.mem_cons_self)
    exhausts List.nodup_nil (List.nil_subset _) nofun (Nat.le_trans all more)
  exact returns _ back

/-- However many more definitions may be followed, a question has one answer, and it is not that too
many were. -/
def Ends (view : View) (q : Question) : Prop :=
  ∃ least, ∀ n, least ≤ n →
    view.ask n q = view.ask least q ∧ FailsOnly Error.NotEndless (view.ask n q)

end View

/-- Structs whose lengths name nothing are searched for members without a question coming up again. -/
theorem ScopeTable.membersEnd_of_counted {table : ScopeTable}
    (counted : ∀ (ns : Namespace) (name : String) (d : StructDef),
      Entries.get? (ns, name) table.symbols = some (.type (.struct d)) →
      ∀ field ∈ d.fields, field.dim.questions = []) : table.MembersEnd := by
  intro ns type path back
  -- A search asks for sizes of types, which lead to nothing, and for what follows in its path.
  have step : ∀ {ns type path t}, table.Leads (ns, .fieldOffset type path) t →
      (∃ type', t.2 = .typeSize type') ∨
        ∃ type' path', t.2 = .fieldOffset type' path' ∧ path'.length < path.length := by
    rintro ns type path ⟨owner, q⟩ leads
    unfold Leads at leads
    cases leads with
    | before found among inside =>
      have named := counted _ _ _ (get?_of_lookup? found) _ (List.takeWhile_subset _ among)
      rw [arrayQuestions, named] at inside
      exact .inl ⟨_, List.mem_singleton.1 inside⟩
    | within found first onward =>
      obtain ⟨head, split⟩ := View.splitHead_of_headOf onward
      exact .inr ⟨_, _, rfl, Text.splitHead_length split⟩
  -- The length stays below the first one along the whole chain.
  have shorter : ∀ {t}, Relation.TransGen table.Leads (ns, .fieldOffset type path) t →
      (∃ type', t.2 = .typeSize type') ∨
        ∃ type' path', t.2 = .fieldOffset type' path' ∧ path'.length < path.length := by
    intro t chain
    induction chain with
    -- The chain is one step.
    | single leads => exact step leads
    | @tail u t _ leads ih =>
      obtain ⟨owner, q⟩ := u
      rcases ih with ⟨type', rfl⟩ | ⟨type', path', rfl, less⟩
      · unfold Leads at leads
        cases leads
      · refine (step leads).imp_right ?_
        rintro ⟨type'', path'', same, further⟩
        exact ⟨type'', path'', same, further.trans less⟩
  -- Coming back would make the path shorter than itself.
  obtain ⟨_, same⟩ | ⟨_, _, same, less⟩ := shorter back
  · cases same
  · cases same
    exact lt_irrefl _ less

/-- Evaluation comes to an end, and only real cycles are reported. If no length of a variable has a
size in it, and no search for a member leads back to itself without a definition being entered, then
every question has an answer that does not depend on how many definitions may be followed, and nothing
that is evaluated follows too many. And where names have no dots, a definition that is reported as
recursive refers back to itself through what is written in definitions: addresses, types and lengths of
variables, fields of structs, and targets of typedefs. -/
theorem evaluation_ends (table : ScopeTable) :
    (table.Sizeless → table.MembersEnd → ∀ view : View, view.scopes = table →
      (∀ q, view.Ends q) ∧ view.Fails Error.NotEndless) ∧
    (table.Dotless → ∀ view : View, view.scopes = table → view.trail = [] →
      view.Fails table.Confirms) := by
  -- The first part is about the number of definitions, the second one about what is on the trail.
  refine ⟨fun sizeless ends view sees => ?_, fun dotless view sees start => ?_⟩
  · subst sees
    have returns : ∀ s, ¬ Relation.TransGen view.scopes.Leads s s := fun s =>
      ends.irrefl sizeless
    refine ⟨fun q => ⟨view.fuel q.weight, fun n more => ⟨?_, ?_⟩⟩, ?_⟩
    · exact View.ask_enough (Nat.le_add_right _ 2) more
    · exact View.ask_ends returns (Nat.le_add_right _ 2) more
    · exact View.fails_of_ask View.notEndless_of_found fun q question light =>
        View.ask_ends returns light (Nat.le_refl _)
  · refine View.fails_of_ask table.confirms_of_found fun q question light =>
      View.ask_confirms dotless sees ?_
    intro key inside
    rw [start] at inside
    cases inside

/-- Two variables that stand for each other, and a struct at a fixed address. -/
def crossReferences : ScopeTable where
  symbols :=
    let fixed (type name : String) (address : Expr) : (Namespace × String) × Symbol :=
      ((.global, name), .var ⟨type, name, false, .scalar, some address, none, .global, none, default⟩)
    [fixed "byte" "first" (.name "second"), fixed "byte" "second" (.name "first"),
      ((.global, "point"),
        .type (.struct ⟨"point", [⟨"byte", "x", .scalar⟩, ⟨"byte", "y", .scalar⟩]⟩)),
      fixed "point" "spot" (.number 0x10)]

/-- Of these the struct is searched to the end, and the two variables are found to go round. -/
theorem crossReferences_ends :
    let view : View := ⟨crossReferences, .global, default, []⟩
    crossReferences.Sizeless ∧ crossReferences.MembersEnd ∧ crossReferences.Dotless ∧
      (∀ q, view.Ends q) ∧ view.bind (.name "spot.y") = .ok (some (.number 0x11)) ∧
      view.bind (.name "first") = .error (.recursiveDefinition default "first") ∧
      ∃ d, crossReferences.Holds d ∧ d.1.qualify d.2.name = "first" ∧
        Relation.TransGen (crossReferences.Refers Symbol.questions) d d := by
  -- What the general theorem asks for is read off the table.
  intro view
  have sizeless : crossReferences.Sizeless := .ofEntries (by simp [crossReferences])
  have ends : crossReferences.MembersEnd := by
    refine ScopeTable.membersEnd_of_counted fun ns name d found field inside => ?_
    have among := Entries.mem_of_get? found
    simp only [crossReferences, List.mem_cons, Prod.mk.injEq, List.not_mem_nil, or_false] at among
    rcases among with ⟨-, ⟨⟩⟩ | ⟨-, ⟨⟩⟩ | ⟨-, ⟨⟩⟩ | ⟨-, ⟨⟩⟩
    rcases List.mem_pair.1 inside with rfl | rfl <;> rfl
  have dotless : crossReferences.Dotless := .ofEntries (by decide)
  have recursive : view.bind (.name "first") = .error (.recursiveDefinition default "first") := by
    decide +kernel
  obtain ⟨ending, cycles⟩ := evaluation_ends crossReferences
  exact ⟨sizeless, ends, dotless, (ending sizeless ends view rfl).1, by decide +kernel, recursive,
    (cycles dotless view rfl rfl).bind _ _ recursive _ _ rfl⟩

/-- A struct in which the length of the first field names the second one of a variable of the type. -/
def selfSized : ScopeTable where
  symbols :=
    [((.global, "s"), .type (.struct ⟨"s",
        [⟨"byte", "a", .sized (.name "v.b")⟩, ⟨"byte", "b", .scalar⟩]⟩)),
      ((.global, "v"), .var ⟨"s", "v", false, .scalar, none, none, .global, none, default⟩)]

/-- Another name of a struct. -/
def secondName : Typedef where
  name := "t"
  type := "s"
  dim := .scalar

/-- A variable of a struct in which the length of the second field names the first one of the variable,
or of a typedef of the struct. -/
def sizedByFirst (type : String) : ScopeTable where
  symbols :=
    [((.global, "s"), .type (.struct ⟨"s",
        [⟨"byte", "a", .scalar⟩, ⟨"byte", "b", .sized (.name "v.a")⟩, ⟨"byte", "c", .scalar⟩]⟩)),
      ((.global, "t"), .type (.typedef secondName)),
      ((.global, "v"), .var ⟨type, "v", false, .scalar, some (.number 0x10), none, .global, none,
        default⟩)]

/-- What is written in a definition, the type of a variable apart. -/
def Symbol.untyped : Symbol → List Question
  | .var v => v.dim.questions ++ (v.address.map Expr.questions).getD []
  | symbol => symbol.questions

/-- The second field of the struct is looked for as long as definitions may be followed. -/
theorem selfSized_endless (n : Nat) :
    View.name n ⟨selfSized, .global, default, []⟩ "v.b" = .error (.endlessDefinition default) := by
  -- Looking for the field asks for the length before it, which looks for the field again.
  induction n using Nat.strongRecOn with
  | ind n ih =>
    match n with
    -- With next to nothing to follow the search fails at once.
    | 0 => rfl
    | 1 => rfl
    | 2 => rfl
    | n + 3 =>
      -- Two definitions further it would be the same search.
      have again := ih (n + 1) (by omega)
      have size : View.arraySize (n + 1) ⟨selfSized, .global, default, []⟩ "byte"
          (.sized (.name "v.b")) none = .error (.endlessDefinition default) := by
        rw [View.arraySize, View.typeSize_succ, View.countWith, View.bindWith, again]
        rfl
      -- The first field stands before the second one, so its size is asked for.
      have offset : View.fieldOffset (n + 2) ⟨selfSized, .global, default, []⟩ "s" "b" =
          .error (.endlessDefinition default) := by
        rw [View.fieldOffset_succ]
        show View.memberOffset (fun field => View.arraySize (n + 1)
          ⟨selfSized, .global, default, []⟩ field.type field.dim none) _ _ "b" _ = _
        rw [View.memberOffset, if_neg (by decide), size]
        rfl
      -- The name leads to the variable, and the member into its struct.
      rw [View.name_succ]
      show View.memberAt (n + 2) ⟨selfSized, .global, default, []⟩ "v" "b"
        (some (.global, .var ⟨"s", "v", false, .scalar, none, none, .global, none, default⟩)) = _
      rw [View.memberAt]
      show (do return (← View.fieldOffset (n + 2) ⟨selfSized, .global, default, []⟩ "s" "b").map _) = _
      rw [offset]
      rfl

/-- A typedef of the other struct does not refer back to itself, but for the type of the variable. -/
theorem sizedByFirst_acyclic {d : Namespace × Symbol} (holds : (sizedByFirst "t").Holds d)
    (named : d.1.qualify d.2.name = "t") :
    ¬ Relation.TransGen ((sizedByFirst "t").Refers Symbol.untyped) d d := by
  -- Only the typedef has the name, so the chain starts there.
  have dotless : (sizedByFirst "t").Dotless := .ofEntries (by decide)
  have start : (sizedByFirst "t").Holds (.global, .type (.typedef secondName)) := rfl
  cases dotless.eq_of_qualify holds start named
  -- The typedef refers to the struct, the struct to the variable, and the variable to nothing.
  have onward : ∀ e, Relation.TransGen ((sizedByFirst "t").Refers Symbol.untyped)
      (.global, .type (.typedef secondName)) e →
      (sizedByFirst "t").lookup? "s" .global = some e ∨
        (sizedByFirst "t").lookup? "v" .global = some e := by
    intro e chain
    induction chain with
    | single refers =>
      obtain ⟨q, inside, mentions⟩ := refers
      -- The first step is from the typedef, which mentions the struct only.
      obtain rfl := List.mem_singleton.1 inside
      exact .inl mentions.lookup?
    | tail _ refers ih =>
      -- From the struct on there are four mentions, and from the variable none.
      obtain ⟨q, inside, mentions⟩ := refers
      rcases ih with struct | var
      · cases struct
        have split : Text.splitHead "v.a" = some ("v", "a") := by decide
        have written : q ∈ [.typeSize "byte", .typeSize "byte", .name "v.a", .typeSize "byte"] :=
          inside
        simp only [List.mem_cons, List.not_mem_nil, or_false] at written
        rcases written with rfl | rfl | rfl | rfl
        · cases mentions.lookup?
        · cases mentions.lookup?
        · rw [mentions.eq_variable rfl split rfl]
          exact .inr rfl
        · cases mentions.lookup?
      · cases var
        cases inside
  -- Neither the struct nor the variable is the typedef.
  intro back
  rcases onward _ back with struct | var
  · cases struct
  · cases var

/-- Looking for members may go round without being noticed, and be taken for going round where it does
not. In the first table no length has a size in it, and still no number of definitions is enough for a
member. In the second one a member of a variable is refused because the typedef that is the variable's
type would refer back to itself, which it does not; of the struct itself the member has an address. -/
theorem memberLookups_recurse :
    (selfSized.Sizeless ∧ selfSized.Dotless ∧
      ∀ n, View.ask n ⟨selfSized, .global, default, []⟩ (.name "v.b") =
        .error (.endlessDefinition default)) ∧
    (sizedByFirst "t").Sizeless ∧ (sizedByFirst "t").Dotless ∧
      View.bind ⟨sizedByFirst "t", .global, default, []⟩ (.name "v.c") =
        .error (.recursiveDefinition default "t") ∧
      (∀ d, (sizedByFirst "t").Holds d → d.1.qualify d.2.name = "t" →
        ¬ Relation.TransGen ((sizedByFirst "t").Refers Symbol.untyped) d d) ∧
      View.bind ⟨sizedByFirst "s", .global, default, []⟩ (.name "v.c") =
        .ok (some (.number 0x21)) := by
  -- The three tables differ in what the length is written with.
  have sizeless : selfSized.Sizeless := .ofEntries (by simp [selfSized])
  have sizeless' : (sizedByFirst "t").Sizeless := .ofEntries (by simp [sizedByFirst])
  exact ⟨⟨sizeless, .ofEntries (by decide), selfSized_endless⟩, sizeless', .ofEntries (by decide),
    by decide +kernel, fun d => sizedByFirst_acyclic, by decide +kernel⟩

end CrossAsm
