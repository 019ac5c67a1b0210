import Mathlib.Data.List.Forall2
import CrossAsm.Resolve
import CrossAsm.Proofs.Binding.Agreement

/-! Symbols that answer every question alike: binding looks neither at the initial values of
variables nor at the statements and parameters of functions. -/

namespace CrossAsm

namespace Entries

variable {κ α : Type} [DecidableEq κ] {R : α → α → Prop} {xs ys : List (κ × α)}

/-- Entries that are related one by one have related values under a key. -/
theorem get?_related (related : List.Forall₂ (fun x y => y.1 = x.1 ∧ R x.2 y.2) xs ys) (key : κ) :
    Option.Rel R (get? key xs) (get? key ys) := by
  -- The keys are the same, so the search stops at the same place.
  induction related with
  | nil => exact .none
  | @cons x y _ _ same _ ih =>
    obtain ⟨_, _⟩ := x
    obtain ⟨other, _⟩ := y
    obtain ⟨rfl, fits⟩ := same
    by_cases here : other = key
    · simpa [get?, here] using Option.Rel.some fits
    · simpa [get?, here] using ih

/-- Related values may be inserted under a key. -/
theorem insert_related (related : List.Forall₂ (fun x y => y.1 = x.1 ∧ R x.2 y.2) xs ys) {x y : α}
    (fits : R x y) (key : κ) :
    List.Forall₂ (fun x y => y.1 = x.1 ∧ R x.2 y.2) (insert key x xs) (insert key y ys) := by
  -- The old entries of the key are in the same place, if there are any.
  induction related with
  | nil => exact .cons ⟨rfl, fits⟩ .nil
  | @cons first second _ _ same others ih =>
    obtain ⟨_, _⟩ := first
    obtain ⟨other, _⟩ := second
    obtain ⟨rfl, old⟩ := same
    by_cases here : other = key
    · simpa [insert, here] using ⟨fits, others⟩
    · simpa [insert, here] using ⟨old, ih⟩

end Entries

/-! ### Symbols -/

/-- Variables that differ in nothing but their initial values, which both have as many of. -/
structure Variable.Matches (v w : Variable) : Prop where
  /-- All but the initial values is the same. -/
  outside : { w with init := v.init } = v
  /-- There are as many of them. -/
  count : w.init.map Initializer.count = v.init.map Initializer.count

/-- Functions that no call can tell apart: for the same arguments the same statements are spliced
in. -/
structure FunctionSymbol.Matches (f g : FunctionSymbol) : Prop where
  /-- They have the same name. -/
  name : g.decl.name = f.decl.name
  /-- They are of the same kind. -/
  kind : g.decl.kind = f.decl.kind
  /-- They have the same entry. -/
  entry : g.entry = f.entry
  /-- They take as many arguments. -/
  arity : g.decl.params.length = f.decl.params.length
  /-- They are spliced in as the same statements. -/
  splices : ∀ args expansion, args.length = f.decl.params.length →
    Resolve.spliceAll (Entries.ofPairs (g.decl.params.zip args)) expansion g.body =
      Resolve.spliceAll (Entries.ofPairs (f.decl.params.zip args)) expansion f.body

/-- Symbols that answer every question alike. -/
inductive Symbol.Matches : Symbol → Symbol → Prop
  | var {v w : Variable} (alike : v.Matches w) : Matches (.var v) (.var w)
  | function {f g : FunctionSymbol} (alike : f.Matches g) : Matches (.function f) (.function g)
  | label (l : Label) : Matches (.label l) (.label l)
  | type (t : TypeDef) : Matches (.type t) (.type t)

/-- A variable matches itself. -/
theorem Variable.Matches.refl (v : Variable) : v.Matches v :=
  ⟨rfl, rfl⟩

/-- A function matches itself. -/
theorem FunctionSymbol.Matches.refl (f : FunctionSymbol) : f.Matches f :=
  ⟨rfl, rfl, rfl, rfl, fun _ _ _ => rfl⟩

/-- Matching functions match with a new entry. -/
theorem FunctionSymbol.Matches.entered {f g : FunctionSymbol} (alike : f.Matches g)
    (entry : Option String) :
    FunctionSymbol.Matches { f with entry } { g with entry } :=
  ⟨alike.name, alike.kind, rfl, alike.arity, alike.splices⟩

namespace Symbol.Matches

variable {a b : Symbol}

/-- A symbol matches itself. -/
theorem refl (symbol : Symbol) : symbol.Matches symbol := by
  -- Kind by kind, since a match is one of the contents.
  cases symbol with
  | var v => exact .var (.refl v)
  | function f => exact .function (.refl f)
  | label l => exact .label l
  | type t => exact .type t

/-- Matching symbols have the same name. -/
theorem name (alike : a.Matches b) : b.name = a.name := by
  -- The name is none of what may differ.
  cases alike with
  | var alike => exact (congrArg Variable.name alike.outside :)
  | function alike => exact alike.name
  | label | type => rfl

/-- Matching symbols weigh the same. -/
theorem weight (alike : a.Matches b) : b.weight = a.weight := by
  -- The weight of a function or a label is fixed; that of a variable is in what does not differ.
  cases alike with
  | @var v w alike =>
    -- The weight does not count initial values.
    have same : (Symbol.var { w with init := v.init }).weight = (Symbol.var v).weight := by
      rw [alike.outside]
    exact same
  | function | label | type => rfl

end Symbol.Matches

/-! ### Tables -/

/-- Tables with matching symbols under the same names. -/
structure ScopeTable.Matches (a b : ScopeTable) : Prop where
  /-- The same scope is open. -/
  current : b.current = a.current
  /-- As many scopes without a name were opened. -/
  anonymous : b.anonymous = a.anonymous
  /-- The symbols match one by one. -/
  symbols : List.Forall₂ (fun x y => y.1 = x.1 ∧ x.2.Matches y.2) a.symbols b.symbols

/-- Two answers of a look-up: none at all, or matching symbols of one scope. -/
abbrev Symbol.Answers : Option (Namespace × Symbol) → Option (Namespace × Symbol) → Prop :=
  Option.Rel fun x y => y.1 = x.1 ∧ x.2.Matches y.2

namespace ScopeTable.Matches

variable {a b : ScopeTable}

/-- A table matches itself. -/
theorem refl (table : ScopeTable) : table.Matches table :=
  ⟨rfl, rfl, List.forall₂_same.2 fun _ _ => ⟨rfl, .refl _⟩⟩

/-- Matching symbols stand under a key. -/
theorem get? (alike : a.Matches b) (key : Namespace × String) :
    Option.Rel Symbol.Matches (Entries.get? key a.symbols) (Entries.get? key b.symbols) :=
  Entries.get?_related alike.symbols key

/-- A name leads to matching symbols. -/
theorem lookup? (alike : a.Matches b) (name : String) (ns : Namespace) :
    Symbol.Answers (a.lookup? name ns) (b.lookup? name ns) := by
  unfold ScopeTable.lookup?
  -- From the inside out, the first scope that has the name is the same one.
  induction ns.ancestors with
  | nil => exact .none
  | cons owner outer ih =>
    rw [List.findSome?_cons, List.findSome?_cons]
    have here := alike.get? (owner, name)
    generalize Entries.get? (owner, name) a.symbols = x at here ⊢
    generalize Entries.get? (owner, name) b.symbols = y at here ⊢
    cases here with
    | none => exact ih
    | some fits => exact .some ⟨rfl, fits⟩

/-- Matching symbols may be defined. -/
theorem define (alike : a.Matches b) {x y : Symbol} (fits : x.Matches y) (ns : Namespace) :
    (a.define x ns).Matches (b.define y ns) := by
  -- Both symbols have one name, and so they are entered at one place.
  refine ⟨alike.current, alike.anonymous, ?_⟩
  rw [ScopeTable.define, ScopeTable.define, fits.name]
  exact Entries.insert_related alike.symbols fits _

/-- A scope may be opened in both. -/
theorem push (alike : a.Matches b) (name : Option String) :
    (a.push name).Matches (b.push name) := by
  -- The new scope has the same name in both, and where it has none the same number.
  obtain ⟨current, anonymous, symbols⟩ := alike
  cases name with
  | none => exact ⟨by simp [ScopeTable.push, current, anonymous],
      by simp [ScopeTable.push, anonymous], symbols⟩
  | some name => exact ⟨by simp [ScopeTable.push, current], anonymous, symbols⟩

/-- Where the scope of one can be left, so can that of the other. -/
theorem pop (alike : a.Matches b) {ns : Namespace} {a' : ScopeTable}
    (popped : a.pop = .ok (ns, a')) :
    ∃ b', b.pop = .ok (ns, b') ∧ a'.Matches b' := by
  -- Whether a scope can be left depends on the current namespace alone.
  unfold ScopeTable.pop at popped ⊢
  rw [alike.current]
  split at popped
  · cases popped
    exact ⟨_, rfl, rfl, alike.anonymous, alike.symbols⟩
  · cases popped

/-- Matching tables weigh the same. -/
theorem weight (alike : a.Matches b) : b.weight = a.weight := by
  -- Entry by entry, for the tables have the same names in the same order.
  have symbols := alike.symbols
  unfold ScopeTable.weight
  generalize a.symbols = xs at symbols ⊢
  generalize b.symbols = ys at symbols ⊢
  induction symbols with
  | nil => rfl
  | cons same _ ih =>
    rw [List.map_cons, List.map_cons, total_cons, total_cons, ih, same.2.weight]

end ScopeTable.Matches

/-! ### Binding -/

/-- The same view of another table. -/
def View.onto (view : View) (table : ScopeTable) : View :=
  { view with scopes := table }

namespace View

variable {table : ScopeTable}

/-- Binding an expression asks the view for nothing but names and sizes. -/
theorem bindWith_onto (view : View) (table : ScopeTable)
    {name name' : String → Except Error (Option Expr)}
    {sizeof sizeof' : String → Except Error (Option Nat)} (names : ∀ path, name' path = name path)
    (sizes : ∀ path, sizeof' path = sizeof path) (e : Expr) :
    (view.onto table).bindWith name' sizeof' e = view.bindWith name sizeof e := by
  -- By induction on the expression: only its names and its sizes ask for anything.
  induction e with
  | number | ref => rfl
  | name path =>
    rw [bindWith, bindWith, names]
    rfl
  | sizeof type => rw [bindWith, bindWith, sizes]
  | unary op e ih =>
    rw [bindWith, bindWith, ih]
    rfl
  | binary op l r ihl ihr =>
    rw [bindWith, bindWith, ihl, ihr]
    rfl

/-- Counting elements asks the view for nothing but lengths. -/
theorem countWith_onto (view : View) (table : ScopeTable)
    {bind bind' : Expr → Except Error (Option Expr)} (binds : ∀ e, bind' e = bind e) (dim : Dim)
    {init init' : Option Initializer}
    (count : init'.map Initializer.count = init.map Initializer.count) :
    (view.onto table).countWith bind' dim init' = view.countWith bind dim init := by
  -- A fixed length is bound as an expression, and an open one is read off the initializer.
  cases dim with
  | scalar => rfl
  | sized length =>
    rw [countWith, countWith, binds]
    rfl
  | unsized =>
    -- Only the number of initial values counts.
    cases init with
    | none =>
      cases init' with
      | none => rfl
      | some => cases count
    | some init =>
      cases init' with
      | none => cases count
      | some init' =>
        rw [Option.map_some, Option.map_some, Option.some.injEq] at count
        rw [countWith, countWith]
        simp only [count]

/-- What is asked behind a definition that is followed is asked of the same table. -/
theorem enter_onto {α : Type} (view : View) (table : ScopeTable) (ns : Namespace) (name : String)
    {k k' : View → Except Error α}
    (same : ∀ inner : View, inner.scopes = view.scopes → k' (inner.onto table) = k inner) :
    ((view.onto table).enter ns name >>= k') = (view.enter ns name >>= k) := by
  -- The trail belongs to the view and not to the table, so it fails in both or in neither.
  unfold enter
  by_cases seen : view.trail.contains (ns.qualify name) = true
  · simp only [onto, seen, if_true]
    rfl
  · simp only [onto, seen]
    exact same { view with ns, trail := view.trail ++ [ns.qualify name] } rfl

/-- What a view of a matching table answers, if a number of definitions is followed. -/
structure AnswersAlike (fuel : Nat) (table : ScopeTable) : Prop where
  /-- A name stands for the same. -/
  name : ∀ view : View, view.scopes.Matches table → ∀ path,
    View.name fuel (view.onto table) path = View.name fuel view path
  /-- It has the same size. -/
  sizeof : ∀ view : View, view.scopes.Matches table → ∀ path,
    View.sizeof fuel (view.onto table) path = View.sizeof fuel view path
  /-- A type has the same size. -/
  typeSize : ∀ view : View, view.scopes.Matches table → ∀ type,
    View.typeSize fuel (view.onto table) type = View.typeSize fuel view type
  /-- A member has the same offset. -/
  fieldOffset : ∀ view : View, view.scopes.Matches table → ∀ type path,
    View.fieldOffset fuel (view.onto table) type path = View.fieldOffset fuel view type path

namespace AnswersAlike

variable {fuel : Nat} {view : View} (alike : AnswersAlike fuel table)

include alike

/-- A variable stands for the same. -/
theorem variableAt (same : view.scopes.Matches table) (ns : Namespace) {v w : Variable}
    (fits : v.Matches w) :
    View.variableAt fuel (view.onto table) ns w = View.variableAt fuel view ns v := by
  -- A match leaves the address alone, and with it what is asked for.
  rw [← fits.outside]
  unfold View.variableAt
  simp only
  cases w.address with
  | none => rfl
  | some address =>
    refine enter_onto view table ns w.name fun inner unchanged => ?_
    have same : inner.scopes.Matches table := unchanged ▸ same
    exact bindWith_onto inner table (alike.name inner same) (alike.sizeof inner same) address

/-- An array has the same size. -/
theorem arraySize (view : View) (same : view.scopes.Matches table) (type : String) (dim : Dim)
    {init init' : Option Initializer}
    (count : init'.map Initializer.count = init.map Initializer.count) :
    View.arraySize fuel (view.onto table) type dim init' =
      View.arraySize fuel view type dim init := by
  -- The size of the type and the number of the elements are the same.
  unfold View.arraySize
  have binds := bindWith_onto view table (alike.name view same) (alike.sizeof view same)
  rw [alike.typeSize view same, countWith_onto view table binds dim count]

/-- A symbol stands for the same. -/
theorem symbolAt (same : view.scopes.Matches table) (ns : Namespace) {a b : Symbol}
    (fits : a.Matches b) :
    View.symbolAt fuel (view.onto table) ns b = View.symbolAt fuel view ns a := by
  -- A function stands for its entry, and the match gives both the same one.
  cases fits with
  | var fits => exact alike.variableAt same ns fits
  | function fits =>
    simp only [View.symbolAt, FunctionDecl.isInline, fits.kind, fits.name, fits.entry]
    rfl
  | label | type => rfl

/-- A member of a variable stands for the same. -/
theorem memberAt_var (same : view.scopes.Matches table) (head member : String) (ns : Namespace)
    {v w : Variable} (fits : v.Matches w) :
    View.memberAt fuel (view.onto table) head member (some (ns, .var w)) =
      View.memberAt fuel view head member (some (ns, .var v)) := by
  -- Where the variable lies and how far the member is from there are two questions.
  unfold View.memberAt
  simp only
  have offset : View.fieldOffset fuel ((view.onto table).moved ns) w.type member =
      View.fieldOffset fuel (view.moved ns) v.type member := by
    have type : w.type = v.type := (congrArg Variable.type fits.outside :)
    rw [type]
    exact alike.fieldOffset (view.moved ns) same v.type member
  rw [alike.variableAt same ns fits, offset]

/-- A member stands for the same. -/
theorem memberAt (same : view.scopes.Matches table) (head member : String)
    {x y : Option (Namespace × Symbol)} (fits : Symbol.Answers x y) :
    View.memberAt fuel (view.onto table) head member y = View.memberAt fuel view head member x := by
  -- What was found is of the same kind on both sides.
  cases fits with
  | none => rfl
  | @some x y fits =>
    obtain ⟨_, a⟩ := x
    obtain ⟨ns, b⟩ := y
    obtain ⟨rfl, fits⟩ := fits
    cases fits with
    | var fits => exact alike.memberAt_var same head member ns fits
    | function => exact alike.name (view.moved (Namespace.global.child head)) same member
    | label => rfl
    | type t => cases t <;> rfl

end AnswersAlike

/-- However many definitions are followed, a view of a matching table answers the same. -/
theorem answersAlike (fuel : Nat) (table : ScopeTable) : AnswersAlike fuel table := by
  -- Each definition that is followed leads to questions with one less.
  induction fuel with
  | zero =>
    -- Without fuel both views fail alike.
    refine ⟨fun view _ path => ?_, fun view _ path => ?_, fun view _ type => ?_,
      fun view _ type path => ?_⟩
    · rw [View.name, View.name]
      rfl
    · rw [View.sizeof, View.sizeof]
      rfl
    · rw [View.typeSize, View.typeSize]
      rfl
    · rw [View.fieldOffset, View.fieldOffset]
      rfl
  | succ fuel ih =>
    constructor
    -- A name leads to a symbol, or its first part leads to something with members.
    · intro view same path
      have here : Symbol.Answers (view.lookup? path) ((view.onto table).lookup? path) :=
        same.lookup? path view.ns
      rw [name_succ, name_succ]
      generalize view.lookup? path = x at here ⊢
      -- The symbol has an answer on both sides, of the same kind.
      generalize (view.onto table).lookup? path = y at here ⊢
      cases here with
      | none =>
        cases Text.splitHead path with
        | none => rfl
        | some parts => exact ih.memberAt same parts.1 parts.2 (same.lookup? parts.1 view.ns)
      | @some x y fits =>
        obtain ⟨_, a⟩ := x
        obtain ⟨ns, b⟩ := y
        obtain ⟨rfl, fits⟩ := fits
        exact ih.symbolAt same ns fits
    -- A variable has the size of its type as often as it has elements.
    · intro view same path
      have here : Symbol.Answers (view.lookup? path) ((view.onto table).lookup? path) :=
        same.lookup? path view.ns
      rw [sizeof_succ, sizeof_succ]
      generalize view.lookup? path = x at here ⊢
      generalize (view.onto table).lookup? path = y at here ⊢
      cases here with
      | none => exact ih.typeSize view same path
      | @some x y fits =>
        obtain ⟨_, a⟩ := x
        obtain ⟨ns, b⟩ := y
        obtain ⟨rfl, fits⟩ := fits
        cases fits with
        | @var v w fits =>
          -- Matching variables have the same type, dimension and number of values.
          have type : w.type = v.type := (congrArg Variable.type fits.outside :)
          have dim : w.dim = v.dim := (congrArg Variable.dim fits.outside :)
          simp only [type, dim]
          exact ih.arraySize (view.moved ns) same v.type v.dim fits.count
        | function | label | type => exact ih.typeSize view same path
    -- A type is built in, or made of others.
    · intro view same type
      have here : Symbol.Answers (view.lookup? type) ((view.onto table).lookup? type) :=
        same.lookup? type view.ns
      rw [typeSize_succ, typeSize_succ]
      cases builtinSize? type with
      | some => rfl
      | none =>
        simp only
        generalize view.lookup? type = x at here ⊢
        generalize (view.onto table).lookup? type = y at here ⊢
        cases here with
        | none => rfl
        | @some x y fits =>
          obtain ⟨_, a⟩ := x
          obtain ⟨ns, b⟩ := y
          obtain ⟨rfl, fits⟩ := fits
          cases fits with
          | var | function | label => rfl
          | type t =>
            cases t with
            | struct d =>
              -- From inside the struct its fields are seen alike.
              refine enter_onto view table ns d.name fun inner unchanged => ?_
              have same : inner.scopes.Matches table := unchanged ▸ same
              have sizes : (fun field : Field => arraySize fuel (inner.onto table) field.type
                  field.dim none) = fun field => arraySize fuel inner field.type field.dim none :=
                funext fun field => ih.arraySize inner same field.type field.dim rfl
              rw [sizes]
            | typedef d =>
              refine enter_onto view table ns d.name fun inner unchanged => ?_
              exact ih.arraySize inner (unchanged ▸ same) d.type d.dim rfl
            | enum d => rfl
    -- A member lies behind the fields before it, perhaps inside another one.
    · intro view same type path
      have here : Symbol.Answers (view.lookup? type) ((view.onto table).lookup? type) :=
        same.lookup? type view.ns
      rw [fieldOffset_succ, fieldOffset_succ]
      generalize view.lookup? type = x at here ⊢
      generalize (view.onto table).lookup? type = y at here ⊢
      cases here with
      | none => rfl
      | @some x y fits =>
        obtain ⟨_, a⟩ := x
        obtain ⟨ns, b⟩ := y
        obtain ⟨rfl, fits⟩ := fits
        cases fits with
        | var | function | label => rfl
        | type t =>
          cases t with
          | struct d =>
            -- The sizes of the fields and the offsets inside them are those of the smaller fuel.
            have sizes : (fun field : Field =>
                  arraySize fuel ((view.onto table).moved ns) field.type field.dim none) =
                fun field => arraySize fuel (view.moved ns) field.type field.dim none :=
              funext fun field => ih.arraySize (view.moved ns) same field.type field.dim rfl
            have offsets : ∀ type rest, fieldOffset fuel ((view.onto table).moved ns) type rest =
                fieldOffset fuel (view.moved ns) type rest :=
              fun type rest => ih.fieldOffset (view.moved ns) same type rest
            simp only [sizes, offsets]
            rfl
          | typedef d =>
            -- A typedef of an array has no members.
            by_cases scalar : d.dim = .scalar
            · simp only [scalar, if_true]
              refine enter_onto view table ns d.name fun inner unchanged => ?_
              exact ih.fieldOffset inner (unchanged ▸ same) d.type path
            · simp only [scalar, if_false]
              rfl
          | enum d => rfl

variable {view : View}

/-- An expression is bound to the same. -/
theorem bind_onto (same : view.scopes.Matches table) (e : Expr) :
    (view.onto table).bind e = view.bind e := by
  -- The tables weigh the same, so as many definitions may be followed.
  have fuel : (view.onto table).fuel e.weight = view.fuel e.weight := by
    simp only [View.fuel, onto, same.weight]
  have answers := answersAlike (view.fuel e.weight) table
  unfold View.bind
  rw [fuel]
  exact bindWith_onto view table (answers.name view same) (answers.sizeof view same) e

/-- A type has the same size. -/
theorem sizeOfType_onto (same : view.scopes.Matches table) (type : String) :
    (view.onto table).sizeOfType type = view.sizeOfType type := by
  -- The tables weigh the same, so as many definitions are followed.
  have fuel : (view.onto table).fuel type.length = view.fuel type.length := by
    simp only [View.fuel, onto, same.weight]
  unfold View.sizeOfType
  rw [fuel]
  exact (answersAlike _ table).typeSize view same type

/-- A variable has the same size. -/
theorem sizeOfVariable_onto (same : view.scopes.Matches table) (var : Variable) :
    (view.onto table).sizeOfVariable var = view.sizeOfVariable var := by
  -- The size of its type and the number of its elements are the same.
  unfold View.sizeOfVariable
  rw [sizeOfType_onto same, countWith_onto view table (bind_onto same) var.dim rfl]

end View

end CrossAsm
