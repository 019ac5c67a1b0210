import CrossAsm.Binding
import CrossAsm.Session
import CrossAsm.Proofs.Steps

/-! Binding at different times: as functions get their entries and labels are minted, an answer that
is known stays the answer. -/

namespace CrossAsm

/-! ### What may become of a symbol -/

/-- Symbols that stand under their own names, where a function's entry has the function's name. -/
structure ScopeTable.Tidy (table : ScopeTable) : Prop where
  /-- A symbol stands under its name. -/
  named : ∀ {ns : Namespace} {name : String} {symbol : Symbol},
    Entries.get? (ns, name) table.symbols = some symbol → symbol.name = name
  /-- A function has no entry, or one of its own name. -/
  entry : ∀ {ns : Namespace} {name : String} {func : FunctionSymbol},
    Entries.get? (ns, name) table.symbols = some (.function func) →
    func.entry = none ∨ func.entry = some name
  /-- A variable stands in its namespace. -/
  inside : ∀ {ns : Namespace} {name : String} {var : Variable},
    Entries.get? (ns, name) table.symbols = some (.var var) → var.ns = ns

/-- What a symbol may become: a function gets its entry, and a global name of the minted kind is
taken over by a label. -/
inductive Symbol.Becomes (limit : Nat) (ns : Namespace) (name : String) :
    Option Symbol → Option Symbol → Prop
  | same (symbol : Option Symbol) : Becomes limit ns name symbol symbol
  | entered {func : FunctionSymbol} :
    Becomes limit ns name (some (.function func))
      (some (.function { func with entry := some name }))
  | minted {symbol : Option Symbol} {label : Label} {count : Nat} (global : ns = .global)
    (counted : count < limit) (reserved : name = Session.labelName count)
    (named : label.name = name) : Becomes limit ns name symbol (some (.label label))

/-- A table that comes of another one while labels are minted, fewer than a limit in all. -/
def ScopeTable.Comes (base : ScopeTable) (limit : Nat) (table : ScopeTable) : Prop :=
  ∀ ns name, Symbol.Becomes limit ns name (Entries.get? (ns, name) base.symbols)
    (Entries.get? (ns, name) table.symbols)

/-- The name of a minted label is not that of a variable whose address is fixed. -/
def ScopeTable.Unpinned (base : ScopeTable) (limit : Nat) : Prop :=
  ∀ {count : Nat} {var : Variable}, count < limit →
    Entries.get? (.global, Session.labelName count) base.symbols = some (.var var) →
    var.address = none

/-- An answer to the name of a minted label: nothing, or something global that layout gives an
address under that name. -/
inductive Standing (path : String) : Option (Namespace × Symbol) → Prop
  | none : Standing path none
  | label {label : Label} (named : label.name = path) :
    Standing path (some (.global, .label label))
  | var {var : Variable} (named : var.name = path) (free : var.address = Option.none) :
    Standing path (some (.global, .var var))
  | function {func : FunctionSymbol} (entry : func.entry = Option.none ∨ func.entry = some path) :
    Standing path (some (.global, .function func))
  | type {type : TypeDef} : Standing path (some (.global, .type type))

/-- An answer that is not known yet or already a label. -/
inductive Unclear : Option (Namespace × Symbol) → Prop
  | none : Unclear none
  | label {ns : Namespace} {label : Label} : Unclear (some (ns, .label label))

/-- Two answers to one name at different times. -/
inductive Alike (path : String) :
    Option (Namespace × Symbol) → Option (Namespace × Symbol) → Prop
  | same (answer : Option (Namespace × Symbol)) : Alike path answer answer
  | entered {ns : Namespace} {func : FunctionSymbol} {early late : Option String}
    (first : early = none ∨ early = some path) (second : late = none ∨ late = some path) :
    Alike path (some (ns, .function { func with entry := early }))
      (some (ns, .function { func with entry := late }))
  | reserved {first second : Option (Namespace × Symbol)} {count : Nat}
    (reserved : path = Session.labelName count) (left : Standing path first)
    (right : Standing path second) (unclear : Unclear first ∨ Unclear second) :
    Alike path first second

/-! ### The names of minted labels -/

/-- The name of a minted label is its number behind a mark. -/
theorem Session.toList_labelName (count : Nat) :
    (Session.labelName count).toList = '_' :: 'L' :: Nat.toDigits 10 count := by
  -- The mark has two characters, and the number is written in decimal.
  simp [Session.labelName, toString, Nat.repr]

/-- A text without a dot is not cut. -/
theorem Text.cutAtDot_eq_none {text : List Char} (plain : '.' ∉ text) :
    Text.cutAtDot text = none := by
  -- By induction on the text; the first character is no dot, and neither is a later one.
  induction text with
  | nil => rfl
  | cons c rest ih =>
    rw [List.mem_cons, not_or] at plain
    rw [Text.cutAtDot, ih plain.2, Option.map_none]
    rintro rfl
    exact plain.1 rfl

/-- The name of a minted label has no dot in it. -/
theorem Session.splitHead_labelName (count : Nat) :
    Text.splitHead (Session.labelName count) = none := by
  -- Such a name is a fixed beginning and the digits of a number.
  have plain : '.' ∉ (Session.labelName count).toList := by
    rw [Session.toList_labelName]
    intro inside
    simp only [List.mem_cons] at inside
    rcases inside with eq | eq | inside
    · exact absurd eq (by decide)
    · exact absurd eq (by decide)
    · -- A dot is not a digit.
      exact absurd (Nat.isDigit_of_mem_toDigits (by decide) (by decide) inside) (by decide)
  rw [Text.splitHead, Text.cutAtDot_eq_none plain, Option.map_none]

/-- The name of a minted label is not that of a type of the language itself. -/
theorem Session.builtinSize?_labelName (count : Nat) :
    builtinSize? (Session.labelName count) = none := by
  -- No type of the language starts with an underscore.
  have marked : (Session.labelName count).toList.head? = some '_' := by
    rw [Session.toList_labelName, List.head?_cons]
  unfold builtinSize?
  split <;> first | rfl | skip
  all_goals
    rename_i named
    rw [named] at marked
    exact absurd marked (by decide)

/-! ### Lookup at different times -/

/-- The global namespace stands behind all others around a namespace. -/
theorem Namespace.ancestors_eq (ns : Namespace) :
    ∃ inner : List Namespace, ns.ancestors = inner ++ [.global] ∧ ∀ owner ∈ inner, owner ≠ .global := by
  -- The parts of the path that are not empty come first, from the longest to the shortest.
  refine ⟨((List.range ns.path.length).map (· + 1)).reverse.map fun depth => ⟨ns.path.take depth⟩,
    ?_, ?_⟩
  · simp [ancestors, List.range_succ_eq_map, Namespace.global]
  · intro owner inside
    simp only [List.mem_map, List.mem_reverse, List.mem_range] at inside
    obtain ⟨_, ⟨depth, less, rfl⟩, rfl⟩ := inside
    -- A part of the path that has a name in it is not empty.
    intro empty
    rw [Namespace.global, Namespace.mk.injEq, List.take_eq_nil_iff] at empty
    rcases empty with none | empty
    · omega
    · rw [empty] at less
      simp at less

namespace ScopeTable

variable {base early late : ScopeTable} {limit : Nat}

/-- Two tables that come of one have the same symbol, or a function with and without its entry, in
every scope but the global one. -/
theorem get?_alike (tidy : base.Tidy) (first : base.Comes limit early)
    (second : base.Comes limit late) {owner : Namespace} (inner : owner ≠ .global) (name : String) :
    Entries.get? (owner, name) early.symbols = Entries.get? (owner, name) late.symbols ∨
    ∃ symbol symbol', Entries.get? (owner, name) early.symbols = some symbol ∧
      Entries.get? (owner, name) late.symbols = some symbol' ∧
      Alike name (some (owner, symbol)) (some (owner, symbol')) := by
  -- Labels are minted in the global scope only, so what is left is a function and its entry.
  have one := first owner name
  have two := second owner name
  generalize Entries.get? (owner, name) early.symbols = a at one ⊢
  generalize Entries.get? (owner, name) late.symbols = b at two ⊢
  generalize found : Entries.get? (owner, name) base.symbols = origin at one two
  cases one with
  | minted global => exact absurd global inner
  | same =>
    cases two with
    | minted global => exact absurd global inner
    | same => exact .inl rfl
    | @entered func =>
      exact .inr ⟨_, _, rfl, rfl, .entered (tidy.entry found) (.inr rfl)⟩
  | @entered func =>
    cases two with
    | minted global => exact absurd global inner
    | same => exact .inr ⟨_, _, rfl, rfl, .entered (.inr rfl) (tidy.entry found)⟩
    | entered => exact .inl rfl

/-- What a tidy table has under the name of a minted label stands for that name. -/
theorem standing (tidy : base.Tidy) (unpinned : base.Unpinned limit) {count : Nat}
    (counted : count < limit) :
    Standing (Session.labelName count)
      ((Entries.get? (.global, Session.labelName count) base.symbols).map (.global, ·)) := by
  -- Whatever kind of symbol it is, it was entered under that name.
  cases found : Entries.get? (.global, Session.labelName count) base.symbols with
  | none => exact .none
  | some symbol =>
    have named := tidy.named found
    cases symbol with
    | label label => exact .label named
    | var var => exact .var named (unpinned counted found)
    | function func => exact .function (tidy.entry found)
    | type type => exact .type

/-- In the global scope a label may have been minted under the name in between. -/
theorem get?_global_alike (tidy : base.Tidy) (unpinned : base.Unpinned limit)
    (first : base.Comes limit early) (second : base.Comes limit late) (name : String) :
    Alike name ((Entries.get? (.global, name) early.symbols).map (.global, ·))
      ((Entries.get? (.global, name) late.symbols).map (.global, ·)) := by
  -- If a label was minted at either time, the name is a reserved one at both.
  have one := first .global name
  have two := second .global name
  have before : ∀ {count : Nat}, count < limit → name = Session.labelName count →
      Standing name ((Entries.get? (.global, name) base.symbols).map (.global, ·)) := by
    rintro count counted rfl
    exact standing tidy unpinned counted
  generalize Entries.get? (.global, name) early.symbols = a at one ⊢
  generalize Entries.get? (.global, name) late.symbols = b at two ⊢
  generalize found : Entries.get? (.global, name) base.symbols = origin at one two before
  cases one with
  | same =>
    -- Nothing came at the first time, so what came at the second one decides.
    cases two with
    | same => exact .same _
    | entered => exact .entered (tidy.entry found) (.inr rfl)
    | minted _ counted reserved named =>
      exact .reserved reserved (before counted reserved) (.label named) (.inr .label)
  | entered =>
    -- The entry came at the first time; with it there or not at the second one, it is the same
    -- name.
    cases two with
    | same => exact .entered (.inr rfl) (tidy.entry found)
    | entered => exact .same _
    | minted _ counted reserved named =>
      exact .reserved reserved (.function (.inr rfl)) (.label named) (.inr .label)
  | minted _ counted reserved named =>
    -- Whatever is there at the other time stands for the same name.
    refine .reserved reserved (.label named) ?_ (.inl .label)
    cases two with
    | same => exact before counted reserved
    | entered => exact .function (.inr rfl)
    | minted _ _ _ named => exact .label named

/-- Two tables that come of one answer alike. -/
theorem lookup?_alike (tidy : base.Tidy) (unpinned : base.Unpinned limit)
    (first : base.Comes limit early) (second : base.Comes limit late) (path : String)
    (ns : Namespace) : Alike path (early.lookup? path ns) (late.lookup? path ns) := by
  obtain ⟨inner, split, apart⟩ := ns.ancestors_eq
  rw [lookup?, lookup?, split]
  clear split
  -- From the inside out, the first scope that has the name answers.
  induction inner with
  | nil => simpa using get?_global_alike tidy unpinned first second path
  | cons owner outer ih =>
    have rest := ih fun other inside => apart other (List.mem_cons_of_mem _ inside)
    rw [List.cons_append, List.findSome?_cons, List.findSome?_cons]
    rcases get?_alike tidy first second (apart owner (List.mem_cons_self ..)) path with
      same | ⟨symbol, symbol', one, two, alike⟩
    · rw [same]
      cases Entries.get? (owner, path) late.symbols with
      | none => exact rest
      | some symbol => exact .same _
    · rw [one, two]
      exact alike

end ScopeTable

/-! ### Binding at different times -/

namespace View

/-- What a variable stands for: its fixed address, or the address that layout gives it. -/
def variableAt (fuel : Nat) (view : View) (ns : Namespace) (var : Variable) :
    Except Error (Option Expr) :=
  match var.address with
  | none => .ok (some (.ref (ns.qualify var.name)))
  | some address => do
    let inner ← view.enter ns var.name
    inner.bindWith (name fuel inner) (sizeof fuel inner) address

/-- The size of an array of a type, as seen from a namespace. -/
def arraySize (fuel : Nat) (view : View) (type : String) (dim : Dim) (init : Option Initializer) :
    Except Error (Option Nat) := do
  let size ← typeSize fuel view type
  let count ← view.countWith (view.bindWith (name fuel view) (sizeof fuel view)) dim init
  return product size count

/-- What a symbol that a name leads to stands for. -/
def symbolAt (fuel : Nat) (view : View) (ns : Namespace) : Symbol → Except Error (Option Expr)
  | .label label => .ok (some (.ref label.name))
  | .var var => variableAt fuel view ns var
  | .function func =>
    if func.decl.isInline then .error (.notAValue view.pos func.decl.name)
    else .ok (func.entry.map .ref)
  | .type type => .error (.notAValue view.pos type.name)

/-- What a member of the thing that a name leads to stands for. -/
def memberAt (fuel : Nat) (view : View) (head member : String) :
    Option (Namespace × Symbol) → Except Error (Option Expr)
  | none => .ok none
  | some (_, .type (.enum d)) =>
    match Entries.get? member d.members with
    | some value => .ok (some (.number value))
    | none => .error (.noSuchMember view.pos head member)
  | some (ns, .var var) => do
    match ← variableAt fuel view ns var with
    | none => return none
    | some base =>
      return (← fieldOffset fuel (view.moved ns) var.type member).map fun offset =>
        .binary .add base (.number (Int64.ofNat offset))
  | some (_, .function _) => name fuel (view.moved (Namespace.global.child head)) member
  | some (_, .label _) | some (_, .type (.struct _)) | some (_, .type (.typedef _)) =>
    .error (.noSuchMember view.pos head member)

/-- One more definition may be followed for a name. -/
theorem name_succ (fuel : Nat) (view : View) (path : String) :
    name (fuel + 1) view path =
      match view.lookup? path with
      | some (ns, symbol) => symbolAt fuel view ns symbol
      | none =>
        match Text.splitHead path with
        | none => .ok none
        | some (head, member) => memberAt fuel view head member (view.lookup? head) := by
  -- A member is looked for only where nothing has the whole name.
  rw [name]
  cases view.lookup? path with
  | none =>
    cases Text.splitHead path with
    | none => rfl
    | some parts =>
      obtain ⟨head, member⟩ := parts
      show _ = memberAt fuel view head member (view.lookup? head)
      rcases here : view.lookup? head with _ | ⟨ns, symbol⟩
      · simp only [here]
        rfl
      · simp only [here]
        rcases symbol with _ | _ | _ | (_ | _ | _) <;> rfl
  | some found =>
    obtain ⟨ns, symbol⟩ := found
    cases symbol <;> rfl

/-- One more definition may be followed for a size. -/
theorem sizeof_succ (fuel : Nat) (view : View) (path : String) :
    sizeof (fuel + 1) view path =
      match view.lookup? path with
      | some (ns, .var var) => arraySize fuel (view.moved ns) var.type var.dim var.init
      | _ => typeSize fuel view path := by
  rw [sizeof]
  rfl

/-- One more definition may be followed for a type. -/
theorem typeSize_succ (fuel : Nat) (view : View) (type : String) :
    typeSize (fuel + 1) view type =
      match builtinSize? type with
      | some size => .ok (some size)
      | none =>
        match view.lookup? type with
        | some (ns, .type (.struct d)) => do
          let inner ← view.enter ns d.name
          sumSizes (fun field => arraySize fuel inner field.type field.dim none) d.fields
        | some (ns, .type (.typedef d)) => do
          let inner ← view.enter ns d.name
          arraySize fuel inner d.type d.dim none
        | some (_, .type (.enum _)) => .ok (some 1)
        | _ => .error (.unknownType view.pos type) := by
  rw [typeSize]
  rfl

/-- The first name of a path to a member, and the rest of it. -/
def headOf (path : String) : String × Option String :=
  match Text.splitHead path with
  | some (head, rest) => (head, some rest)
  | none => (path, none)

/-- One more definition may be followed for a member. -/
theorem fieldOffset_succ (fuel : Nat) (view : View) (type path : String) :
    fieldOffset (fuel + 1) view type path =
      match view.lookup? type with
      | some (ns, .type (.struct d)) =>
        memberOffset (fun field => arraySize fuel (view.moved ns) field.type field.dim none)
          (fun field =>
            match (headOf path).2 with
            | some rest => fieldOffset fuel (view.moved ns) field.type rest
            | none => .ok (some 0))
          (Error.noSuchMember view.pos type path) (headOf path).1 d.fields
      | some (ns, .type (.typedef d)) =>
        if d.dim = .scalar then do
          let inner ← view.enter ns d.name
          fieldOffset fuel inner d.type path
        else
          .error (Error.noSuchMember view.pos type path)
      | _ => .error (Error.noSuchMember view.pos type path) := by
  -- Both ways of taking the head off a path give the same parts.
  rw [fieldOffset, headOf]
  cases Text.splitHead path <;> rfl

/-- Two answers of which both are known only if they are the same. -/
def Agreed {α : Type} (x y : Except Error (Option α)) : Prop :=
  ∀ ⦃a b : α⦄, x = .ok (some a) → y = .ok (some b) → a = b

namespace Agreed

variable {α β : Type}

/-- An answer agrees with itself. -/
theorem refl (x : Except Error (Option α)) : Agreed x x := by
  -- There is one answer, so that both values are it.
  intro a b first second
  rw [first, Except.ok.injEq, Option.some.injEq] at second
  exact second

/-- Nothing disagrees with a side that has no answer. -/
theorem ofLeft {x y : Except Error (Option α)} (unknown : ∀ a, x ≠ .ok (some a)) : Agreed x y :=
  fun a _ first _ => absurd first (unknown a)

/-- Nothing disagrees with a side that has no answer. -/
theorem ofRight {x y : Except Error (Option α)} (unknown : ∀ a, y ≠ .ok (some a)) : Agreed x y :=
  fun _ b _ second => absurd second (unknown b)

/-- Nothing disagrees with an error. -/
theorem errorLeft {e : Error} {y : Except Error (Option α)} : Agreed (.error e) y := by
  -- An error gives no value to be compared.
  intro a b first
  cases first

/-- Nothing disagrees with an error. -/
theorem errorRight {x : Except Error (Option α)} {e : Error} : Agreed x (.error e) := by
  -- An error gives no value to be compared.
  intro a b first second
  cases second

/-- Answers made of agreeing answers agree. -/
theorem map {x y : Except Error (Option α)} (agreed : Agreed x y) (f : α → β) :
    Agreed (do return (← x).map f) (do return (← y).map f) := by
  -- Both answers are known, so they are made of the same known answer.
  intro a b first second
  simp only [except_bind_eq_ok, except_pure_eq_ok, Option.map_eq_some_iff] at first second
  obtain ⟨_, known, c, rfl, rfl⟩ := first
  obtain ⟨_, known', d, rfl, rfl⟩ := second
  rw [agreed known known']

/-- Folding an expression gives one answer. -/
theorem ofFold (a b : View) (e : Expr) : Agreed (a.fold (some e)) (b.fold (some e)) := by
  -- Neither view is asked for anything.
  intro x y first second
  simp only [View.fold] at first second
  cases folded : e.fold <;> simp_all

/-- Folding what agrees gives one answer. -/
theorem fold {a b : View} {x y : Except Error (Option Expr)} (agreed : Agreed x y)
    (f : Expr → Expr) :
    Agreed (do a.fold ((← x).map f)) (do b.fold ((← y).map f)) := by
  -- There is something to fold on both sides, and it is the same.
  intro e e' first second
  simp only [except_bind_eq_ok] at first second
  obtain ⟨u, known, folded⟩ := first
  obtain ⟨v, known', folded'⟩ := second
  cases u with
  | none => simp [View.fold] at folded
  | some u =>
    cases v with
    | none => simp [View.fold] at folded'
    | some v =>
      cases agreed known known'
      exact ofFold a b (f u) folded folded'

end Agreed

/-- Views from the same namespace onto tables that come of one. -/
structure Similar (base : ScopeTable) (limit : Nat) (a b : View) : Prop where
  /-- Both look from the same namespace. -/
  ns : a.ns = b.ns
  /-- The first table comes of the common one. -/
  early : base.Comes limit a.scopes
  /-- So does the second. -/
  late : base.Comes limit b.scopes

section Agreement

variable {base : ScopeTable} {limit : Nat}

/-- Moving to a namespace keeps views similar. -/
theorem Similar.moved {a b : View} (similar : Similar base limit a b) (ns : Namespace) :
    Similar base limit (a.moved ns) (b.moved ns) :=
  ⟨rfl, similar.early, similar.late⟩

/-- Following a definition keeps views similar. -/
theorem Similar.enter {a b a' b' : View} (similar : Similar base limit a b) {ns : Namespace}
    {name : String} (first : a.enter ns name = .ok a') (second : b.enter ns name = .ok b') :
    Similar base limit a' b' := by
  unfold View.enter at first second
  -- A definition that is followed already is an error; else the views move together.
  simp only at first second
  split at first
  · cases first
  · split at second
    · cases second
    · cases first
      cases second
      exact ⟨rfl, similar.early, similar.late⟩

/-- Similar views answer alike. -/
theorem Similar.lookup?_alike (tidy : base.Tidy) (unpinned : base.Unpinned limit) {a b : View}
    (similar : Similar base limit a b) (path : String) :
    Alike path (a.lookup? path) (b.lookup? path) := by
  -- The views are in one scope, and their tables lead alike from there.
  rw [View.lookup?, View.lookup?, similar.ns]
  exact ScopeTable.lookup?_alike tidy unpinned similar.early similar.late path b.ns

/-- All questions have one answer, if a number of definitions may be followed on one side. -/
structure Agreement (base : ScopeTable) (limit fuel : Nat) : Prop where
  /-- A name stands for one thing. -/
  name : ∀ {fuel' : Nat} {a b : View} (path : String), Similar base limit a b →
    Agreed (name fuel a path) (View.name fuel' b path)
  /-- A variable or type has one size. -/
  sizeof : ∀ {fuel' : Nat} {a b : View} (path : String), Similar base limit a b →
    Agreed (sizeof fuel a path) (View.sizeof fuel' b path)
  /-- A type has one size. -/
  typeSize : ∀ {fuel' : Nat} {a b : View} (type : String), Similar base limit a b →
    Agreed (typeSize fuel a type) (View.typeSize fuel' b type)
  /-- A member has one offset. -/
  fieldOffset : ∀ {fuel' : Nat} {a b : View} (type path : String), Similar base limit a b →
    Agreed (fieldOffset fuel a type path) (View.fieldOffset fuel' b type path)

variable {fuel fuel' : Nat} {a b : View}

/-- An expression is bound to one thing. -/
theorem Agreement.bindWith (agreement : Agreement base limit fuel)
    (similar : Similar base limit a b) (e : Expr) :
    Agreed (a.bindWith (View.name fuel a) (View.sizeof fuel a) e)
      (b.bindWith (View.name fuel' b) (View.sizeof fuel' b) e) := by
  -- Names and sizes agree, and the operators are applied to what they stand for.
  induction e with
  | number value => exact .refl _
  | ref key => exact .refl _
  | name path =>
    have named : Agreed (View.name fuel a path) (View.name fuel' b path) :=
      agreement.name path similar
    simpa [View.bindWith] using named.fold (a := a) (b := b) id
  | sizeof type => exact (agreement.sizeof type similar).map _
  | unary op e ih => exact ih.fold _
  | binary op l r left right =>
    intro x y first second
    simp only [View.bindWith, except_bind_eq_ok] at first second
    obtain ⟨l1, knownL, r1, knownR, first⟩ := first
    obtain ⟨l2, knownL', r2, knownR', second⟩ := second
    -- Both operands are known on both sides.
    rcases l1 with _ | l1
    · simp at first
    rcases r1 with _ | r1
    · simp at first
    rcases l2 with _ | l2
    · simp at second
    rcases r2 with _ | r2
    · simp at second
    -- Equal operands are folded alike.
    cases left knownL knownL'
    cases right knownR knownR'
    exact Agreed.ofFold a b _ first second

/-- A declaration has one number of elements. -/
theorem Agreement.countWith (agreement : Agreement base limit fuel)
    (similar : Similar base limit a b) (dim : Dim) (init : Option Initializer) :
    Agreed (a.countWith (a.bindWith (View.name fuel a) (View.sizeof fuel a)) dim init)
      (b.countWith (b.bindWith (View.name fuel' b) (View.sizeof fuel' b)) dim init) := by
  -- Only a length that is written out has to be bound.
  cases dim with
  | scalar => exact .refl _
  | unsized =>
    cases init with
    | none => exact .errorLeft
    | some init => exact .refl _
  | sized length =>
    intro x y first second
    simp only [View.countWith, except_bind_eq_ok, except_pure_eq_ok, Option.map_eq_some_iff]
      at first second
    obtain ⟨e, known, _, numbered, n, rfl, rfl⟩ := first
    obtain ⟨e', known', _, numbered', m, rfl, rfl⟩ := second
    -- A length is a number, and bound to the same expression it is the same number.
    cases e with
    | none => simp [View.number] at numbered
    | some e =>
      cases e' with
      | none => simp [View.number] at numbered'
      | some e' =>
        cases agreement.bindWith similar length known known'
        cases e <;> simp_all [View.number]

/-- An array has one size. -/
theorem Agreement.arraySize (agreement : Agreement base limit fuel)
    (similar : Similar base limit a b) (type : String) (dim : Dim) (init : Option Initializer) :
    Agreed (a.arraySize fuel type dim init) (b.arraySize fuel' type dim init) := by
  intro x y first second
  simp only [View.arraySize, except_bind_eq_ok, except_pure_eq_ok] at first second
  obtain ⟨size, sized, count, counted, first⟩ := first
  obtain ⟨size', sized', count', counted', second⟩ := second
  -- The element and the number of elements are known on both sides.
  rcases size with _ | size
  · simp [product] at first
  rcases count with _ | count
  · simp [product] at first
  rcases size' with _ | size'
  · simp [product] at second
  rcases count' with _ | count'
  · simp [product] at second
  cases agreement.typeSize type similar sized sized'
  cases agreement.countWith similar dim init counted counted'
  simpa using first.symm.trans second

/-- Fields that have one size each have one size together. -/
theorem Agreed.sumSizes {size size' : Field → Except Error (Option Nat)}
    (agreed : ∀ field, Agreed (size field) (size' field)) (fields : List Field) :
    Agreed (View.sumSizes size fields) (View.sumSizes size' fields) := by
  -- Field by field: what is behind a field is known only if the field is.
  induction fields with
  | nil => exact .refl _
  | cons field others ih =>
    intro x y first second
    simp only [View.sumSizes, except_bind_eq_ok] at first second
    obtain ⟨here, known, first⟩ := first
    obtain ⟨here', known', second⟩ := second
    rcases here with _ | here
    · simp at first
    rcases here' with _ | here'
    · simp at second
    cases agreed field known known'
    exact ih.map _ first second

/-- A member has one offset among fields that have one size each. -/
theorem Agreed.memberOffset {size size' inside inside' : Field → Except Error (Option Nat)}
    {missing missing' : Error} {head : String} (agreed : ∀ field, Agreed (size field) (size' field))
    (within : ∀ field, Agreed (inside field) (inside' field)) (fields : List Field) :
    Agreed (View.memberOffset size inside missing head fields)
      (View.memberOffset size' inside' missing' head fields) := by
  -- The fields before the member agree on their sizes, and the member on what is inside it.
  induction fields with
  | nil => exact .errorLeft
  | cons field others ih =>
    intro x y first second
    by_cases named : field.name = head
    · rw [View.memberOffset, if_pos named] at first second
      exact within field first second
    · rw [View.memberOffset, if_neg named, except_bind_eq_ok] at first second
      obtain ⟨here, known, first⟩ := first
      obtain ⟨here', known', second⟩ := second
      rcases here with _ | here
      · simp at first
      rcases here' with _ | here'
      · simp at second
      cases agreed field known known'
      exact ih.map _ first second

/-- A variable stands for one thing. -/
theorem Agreement.variableAt (agreement : Agreement base limit fuel)
    (similar : Similar base limit a b) (ns : Namespace) (var : Variable) :
    Agreed (a.variableAt fuel ns var) (b.variableAt fuel' ns var) := by
  -- A fixed address is an expression, which is bound in the scope of the variable.
  unfold View.variableAt
  cases var.address with
  | none => exact .refl _
  | some address =>
    intro x y first second
    simp only [except_bind_eq_ok] at first second
    obtain ⟨inner, entered, bound⟩ := first
    obtain ⟨inner', entered', bound'⟩ := second
    exact agreement.bindWith (similar.enter entered entered') address bound bound'

/-- A symbol stands for one thing. -/
theorem Agreement.symbolAt (agreement : Agreement base limit fuel)
    (similar : Similar base limit a b) (ns : Namespace) (symbol : Symbol) :
    Agreed (a.symbolAt fuel ns symbol) (b.symbolAt fuel' ns symbol) := by
  -- A label and a function stand for their names; only a variable asks for anything.
  cases symbol with
  | label label => exact .refl _
  | var var => exact agreement.variableAt similar ns var
  | function func =>
    by_cases inline : func.decl.isInline
    · rw [View.symbolAt, if_pos inline]
      exact .errorLeft
    · rw [View.symbolAt, View.symbolAt, if_neg inline, if_neg inline]
      exact .refl _
  | type type => exact .errorLeft

/-- A member of one thing stands for one thing. -/
theorem Agreement.memberAt (agreement : Agreement base limit fuel)
    (similar : Similar base limit a b) (head member : String)
    (found : Option (Namespace × Symbol)) :
    Agreed (a.memberAt fuel head member found) (b.memberAt fuel' head member found) := by
  -- What has members is a variable, a function or an enumeration.
  rcases found with _ | ⟨ns, var | func | label | (d | d | d)⟩
  · exact .refl _
  · -- The member lies at its offset behind where the variable lies.
    intro x y first second
    simp only [View.memberAt, except_bind_eq_ok] at first second
    obtain ⟨base, placed, first⟩ := first
    obtain ⟨base', placed', second⟩ := second
    rcases base with _ | base
    · simp at first
    rcases base' with _ | base'
    · simp at second
    cases agreement.variableAt similar ns var placed placed'
    exact (agreement.fieldOffset var.type member (similar.moved ns)).map _ first second
  · exact agreement.name member (similar.moved _)
  · -- The other symbols have no members, but for an enumeration.
    exact .errorLeft
  · exact .errorLeft
  · exact .errorLeft
  · unfold View.memberAt
    -- A member of an enumeration is its value, or an error.
    simp only
    split
    · exact .refl _
    · exact .errorLeft

/-- Where a name leads to nothing clear, it has no members. -/
theorem memberAt_unclear {found : Option (Namespace × Symbol)} (unclear : Unclear found)
    (fuel : Nat) (view : View) (head member : String) (e : Expr) :
    view.memberAt fuel head member found ≠ .ok (some e) := by
  -- Each of the unclear cases is an error or stays open.
  intro known
  cases unclear <;> cases known

/-- Where a name leads to nothing clear, there is no type of that name. -/
theorem typeSize_unclear {view : View} {type : String} (unclear : Unclear (view.lookup? type))
    (other : builtinSize? type = none) (fuel : Nat) (size : Option Nat) :
    typeSize fuel view type ≠ .ok size := by
  -- Without a definition to follow the question ends in an error, whichever number may be followed.
  intro known
  cases fuel with
  | zero => cases known
  | succ fuel =>
    rw [typeSize_succ, other] at known
    generalize view.lookup? type = found at unclear known
    cases unclear <;> cases known

/-- Where a name leads to nothing clear, it has no size. -/
theorem sizeof_unclear {view : View} {path : String} (unclear : Unclear (view.lookup? path))
    (other : builtinSize? path = none) (fuel : Nat) (size : Option Nat) :
    sizeof fuel view path ≠ .ok size := by
  -- Whatever is found there, its size is asked for as that of a type.
  intro known
  cases fuel with
  | zero => cases known
  | succ fuel =>
    have unknown := typeSize_unclear unclear other fuel size
    rw [sizeof_succ] at known
    generalize view.lookup? path = found at unclear known
    cases unclear <;> exact unknown known

/-- Where a name leads to nothing clear, it has no fields. -/
theorem fieldOffset_unclear {view : View} {type : String} (unclear : Unclear (view.lookup? type))
    (fuel : Nat) (path : String) (offset : Option Nat) :
    fieldOffset fuel view type path ≠ .ok offset := by
  -- A member is asked of what the name of the type leads to, and that is nothing.
  intro known
  cases fuel with
  | zero => cases known
  | succ fuel =>
    rw [fieldOffset_succ] at known
    generalize view.lookup? type = found at unclear known
    cases unclear <;> cases known

/-- What stands for the name of a minted label is known under that name only. -/
theorem symbolAt_standing {path : String} {ns : Namespace} {symbol : Symbol}
    (standing : Standing path (some (ns, symbol))) {view : View} {e : Expr}
    (known : view.symbolAt fuel ns symbol = .ok (some e)) : e = .ref path := by
  -- Labels, variables without an address and entries are all known by name.
  cases standing with
  | label named => simp_all [View.symbolAt]
  | var named free =>
    rw [View.symbolAt, View.variableAt, free] at known
    simp_all [Namespace.qualify, Namespace.isGlobal, Namespace.global]
  | function entry =>
    rw [View.symbolAt] at known
    split at known
    · cases known
    · rcases entry with none | entry <;> simp_all
  | type => simp [View.symbolAt] at known

/-- A name stands for one thing if what it is defined by does. -/
theorem Agreement.name_succ (tidy : base.Tidy) (unpinned : base.Unpinned limit)
    (agreement : Agreement base limit fuel) (similar : Similar base limit a b) (path : String) :
    Agreed (View.name (fuel + 1) a path) (View.name (fuel' + 1) b path) := by
  -- What the name leads to on both sides decides.
  have alike := similar.lookup?_alike tidy unpinned path
  rw [View.name_succ, View.name_succ]
  generalize a.lookup? path = first at alike ⊢
  generalize b.lookup? path = second at alike ⊢
  cases alike with
  | same =>
    rcases first with _ | ⟨ns, symbol⟩
    · -- Nothing has the whole name, so it may be that of a member.
      rcases Text.splitHead path with _ | ⟨head, member⟩
      · exact .refl _
      · have alike := similar.lookup?_alike tidy unpinned head
        simp only
        generalize a.lookup? head = first at alike ⊢
        generalize b.lookup? head = second at alike ⊢
        cases alike with
        | same => exact agreement.memberAt similar head member first
        | entered => exact agreement.name member (similar.moved _)
        | reserved _ _ _ unclear =>
          -- Under the minted name the member is open at one of the times.
          rcases unclear with unclear | unclear
          · exact .ofLeft (memberAt_unclear unclear fuel a head member)
          · exact .ofRight (memberAt_unclear unclear fuel' b head member)
    · exact agreement.symbolAt similar ns symbol
  | @entered ns func early late first second =>
    -- The entry has the function's name as soon as there is one.
    intro x y known known'
    -- An inline function has no value, and one without an entry has none yet.
    simp only [View.symbolAt] at known known'
    split at known
    · cases known
    · rcases first with rfl | rfl
      · simp at known
      · rcases second with rfl | rfl <;> simp_all
  | reserved reserved left right =>
    intro x y known known'
    rw [reserved, Session.splitHead_labelName] at known known'
    -- A name that was minted has no dot, so that it is the whole name.
    rcases first with _ | ⟨ns, symbol⟩
    · simp at known
    · rcases second with _ | ⟨ns', symbol'⟩
      · simp at known'
      · rw [symbolAt_standing left known, symbolAt_standing right known']

/-- A type has one size if what it is defined by does. -/
theorem Agreement.typeSize_succ (tidy : base.Tidy) (unpinned : base.Unpinned limit)
    (agreement : Agreement base limit fuel) (similar : Similar base limit a b) (type : String) :
    Agreed (View.typeSize (fuel + 1) a type) (View.typeSize (fuel' + 1) b type) := by
  -- A type of the language has its size; any other is looked up on both sides.
  cases builtin : builtinSize? type with
  | some size =>
    rw [View.typeSize_succ, View.typeSize_succ, builtin]
    exact .refl _
  | none =>
    have alike := similar.lookup?_alike tidy unpinned type
    by_cases unclear : Unclear (a.lookup? type) ∨ Unclear (b.lookup? type)
    · rcases unclear with unclear | unclear
      · -- The minted name is no type as long as it is open.
        exact .ofLeft fun _ => typeSize_unclear unclear builtin _ _
      · exact .ofRight fun _ => typeSize_unclear unclear builtin _ _
    · rw [View.typeSize_succ, View.typeSize_succ, builtin]
      generalize a.lookup? type = first at alike unclear ⊢
      generalize b.lookup? type = second at alike unclear ⊢
      cases alike with
      | reserved _ _ _ either => exact absurd either unclear
      | entered => exact .errorLeft
      | same =>
        rcases first with _ | ⟨ns, var | func | label | (d | d | d)⟩
        · -- A name that leads nowhere is no type; variables, functions and labels are none either.
          exact .errorLeft
        · exact .errorLeft
        · exact .errorLeft
        · exact .errorLeft
        · -- A struct is as large as its fields, seen from inside it.
          intro x y known known'
          simp only [except_bind_eq_ok] at known known'
          obtain ⟨inner, entered, known⟩ := known
          obtain ⟨inner', entered', known'⟩ := known'
          have inside := similar.enter entered entered'
          exact Agreed.sumSizes (fun field => agreement.arraySize inside field.type field.dim none)
            d.fields known known'
        · -- A typedef is as large as its array, and an enumeration one byte.
          intro x y known known'
          simp only [except_bind_eq_ok] at known known'
          obtain ⟨inner, entered, known⟩ := known
          obtain ⟨inner', entered', known'⟩ := known'
          exact agreement.arraySize (similar.enter entered entered') d.type d.dim none known known'
        · exact .refl _

/-- A variable or type has one size if what it is defined by does. -/
theorem Agreement.sizeof_succ (tidy : base.Tidy) (unpinned : base.Unpinned limit)
    (agreement : Agreement base limit fuel) (similar : Similar base limit a b) (path : String) :
    Agreed (View.sizeof (fuel + 1) a path) (View.sizeof (fuel' + 1) b path) := by
  -- A name that leads to no variable is asked for as a type.
  have alike := similar.lookup?_alike tidy unpinned path
  have asType : Agreed (View.typeSize fuel a path) (View.typeSize fuel' b path) :=
    agreement.typeSize path similar
  by_cases reserved : builtinSize? path = none ∧
      (Unclear (a.lookup? path) ∨ Unclear (b.lookup? path))
  · obtain ⟨builtin, unclear | unclear⟩ := reserved
    · -- What the name leads to is open at one of the times, and so the size is.
      exact .ofLeft fun _ => sizeof_unclear unclear builtin _ _
    · exact .ofRight fun _ => sizeof_unclear unclear builtin _ _
  · rw [View.sizeof_succ, View.sizeof_succ]
    generalize a.lookup? path = first at alike reserved ⊢
    generalize b.lookup? path = second at alike reserved ⊢
    cases alike with
    | reserved named _ _ either =>
      exact absurd ⟨named ▸ Session.builtinSize?_labelName _, either⟩ reserved
    | entered => exact asType
    | same =>
      rcases first with _ | ⟨ns, var | func | label | type⟩
      · -- Only a variable has a size of its own; all else is asked for as a type.
        exact asType
      · exact agreement.arraySize (similar.moved ns) var.type var.dim var.init
      · exact asType
      · exact asType
      · exact asType

/-- A member has one offset if what its type is defined by is one thing. -/
theorem Agreement.fieldOffset_succ (tidy : base.Tidy) (unpinned : base.Unpinned limit)
    (agreement : Agreement base limit fuel) (similar : Similar base limit a b)
    (type path : String) :
    Agreed (View.fieldOffset (fuel + 1) a type path) (View.fieldOffset (fuel' + 1) b type path) := by
  -- A name of the minted kind has no fields as long as it is open what it stands for.
  have alike := similar.lookup?_alike tidy unpinned type
  by_cases unclear : Unclear (a.lookup? type) ∨ Unclear (b.lookup? type)
  · rcases unclear with unclear | unclear
    · exact .ofLeft fun _ => fieldOffset_unclear unclear _ _ _
    · exact .ofRight fun _ => fieldOffset_unclear unclear _ _ _
  · rw [View.fieldOffset_succ, View.fieldOffset_succ]
    generalize a.lookup? type = first at alike unclear ⊢
    generalize b.lookup? type = second at alike unclear ⊢
    cases alike with
    | reserved _ _ _ either => exact absurd either unclear
    | entered => exact .errorLeft
    | same =>
      rcases first with _ | ⟨ns, var | func | label | (d | d | d)⟩
      · -- Of what a name leads to, a struct and a typedef have fields.
        exact .errorLeft
      · exact .errorLeft
      · exact .errorLeft
      · exact .errorLeft
      · have inside := similar.moved ns
        refine Agreed.memberOffset
          (fun field => agreement.arraySize inside field.type field.dim none) (fun field => ?_)
          d.fields
        -- The path ends at the field, or goes on inside it.
        cases (headOf path).2 with
        | none => exact .refl _
        | some rest => exact agreement.fieldOffset field.type rest inside
      · -- A typedef passes the question on, unless it is one of an array.
        by_cases scalar : d.dim = .scalar
        · simp only [if_pos scalar]
          intro x y known known'
          simp only [except_bind_eq_ok] at known known'
          obtain ⟨inner, entered, known⟩ := known
          obtain ⟨inner', entered', known'⟩ := known'
          exact agreement.fieldOffset d.type path (similar.enter entered entered') known known'
        · simp only [if_neg scalar]
          exact .errorLeft
      · exact .errorLeft

/-- Whatever number of definitions may be followed, all questions have one answer. -/
theorem agreement (tidy : base.Tidy) (unpinned : base.Unpinned limit) (fuel : Nat) :
    Agreement base limit fuel := by
  -- By induction on the number that may be followed on one side; on the other it is any number.
  induction fuel with
  | zero => constructor <;> intros <;> exact .errorLeft
  | succ fuel ih =>
    -- If no definition may be followed on the other side, there is no answer there.
    constructor <;> intro fuel' <;> rcases fuel' with _ | fuel' <;> intros
    · exact .errorRight
    · exact ih.name_succ tidy unpinned ‹_› _
    · exact .errorRight
    · exact ih.sizeof_succ tidy unpinned ‹_› _
    · exact .errorRight
    · exact ih.typeSize_succ tidy unpinned ‹_› _
    · exact .errorRight
    · exact ih.fieldOffset_succ tidy unpinned ‹_› _ _

end Agreement

end View

end CrossAsm
