import CrossAsm.Proofs.Binding.Agreement

/-! Binding at a later time: what an expression is bound to, it is bound to ever after, as functions
get their entries and labels are minted, unless a declaration has a name that a label is minted
under. -/

namespace CrossAsm

/-! ### Look-up at a later time -/

/-- Of all symbols only labels have a global name that labels are minted under. -/
def ScopeTable.Reserved (table : ScopeTable) : Prop :=
  ∀ count symbol,
    Entries.get? (.global, Session.labelName count) table.symbols = some symbol →
    ∃ label, symbol = .label label

/-- The answer to a name, and the one that is given later. -/
inductive Kept (path : String) :
    Option (Namespace × Symbol) → Option (Namespace × Symbol) → Prop
  | same (answer : Option (Namespace × Symbol)) : Kept path answer answer
  | entered {ns : Namespace} {func : FunctionSymbol} (first : func.entry = none) :
    Kept path (some (ns, .function func)) (some (ns, .function { func with entry := some path }))
  | label {ns : Namespace} {early late : Label} (named : late.name = early.name) :
    Kept path (some (ns, .label early)) (some (ns, .label late))
  | minted {label : Label} {count : Nat} (reserved : path = Session.labelName count) :
    Kept path none (some (.global, .label label))

namespace ScopeTable

variable {table later : ScopeTable} {limit : Nat}

/-- Reserved names stay reserved. -/
theorem Reserved.comes (reserved : table.Reserved) (comes : table.Comes limit later) :
    later.Reserved := by
  intro count symbol found
  -- A label stays one, and where nothing was a label is all that can come.
  have becomes := comes .global (Session.labelName count)
  generalize before : Entries.get? (.global, Session.labelName count) table.symbols = old
    at becomes
  rw [found] at becomes
  cases becomes with
  | same => exact reserved count symbol before
  | entered =>
    obtain ⟨label, same⟩ := reserved count _ before
    cases same
  | minted => exact ⟨_, rfl⟩

/-- What a scope answers to a name, and what it answers later. -/
theorem get?_kept (tidy : table.Tidy) (reserved : table.Reserved) (comes : table.Comes limit later)
    (owner : Namespace) (path : String) :
    Kept path ((Entries.get? (owner, path) table.symbols).map (owner, ·))
      ((Entries.get? (owner, path) later.symbols).map (owner, ·)) := by
  -- What may become of a symbol: nothing, a function gets its entry, or a label is minted.
  have becomes := comes owner path
  generalize before : Entries.get? (owner, path) table.symbols = old at becomes
  generalize Entries.get? (owner, path) later.symbols = new at becomes
  cases becomes with
  | same => exact .same _
  | @entered func =>
    -- A function that has its entry already gets no other one.
    rcases tidy.entry before with first | again
    · exact .entered first
    · have same : { func with entry := some path } = func := by rw [← again]
      rw [same]
      exact .same _
  | @minted _ label count isGlobal _ minted named =>
    subst isGlobal
    cases old with
    | none => exact .minted minted
    | some symbol =>
      -- Another label of the same name takes the place of the first one.
      subst minted
      obtain ⟨early, rfl⟩ := reserved count symbol before
      have earlyNamed : early.name = Session.labelName count := tidy.named before
      exact .label (named.trans earlyNamed.symm)

/-- What a name leads to, and what it leads to later. -/
theorem lookup?_kept (tidy : table.Tidy) (reserved : table.Reserved)
    (comes : table.Comes limit later) (path : String) (ns : Namespace) :
    Kept path (table.lookup? path ns) (later.lookup? path ns) := by
  obtain ⟨inner, scopes, apart⟩ := ns.ancestors_eq
  rw [lookup?, lookup?, scopes]
  clear scopes
  -- From the inside out, the first scope that has the name answers; a label comes in the last one.
  induction inner with
  | nil => simpa using get?_kept tidy reserved comes .global path
  | cons owner outer ih =>
    have rest := ih fun other inside => apart other (List.mem_cons_of_mem _ inside)
    have notGlobal : owner ≠ .global := apart owner List.mem_cons_self
    have here := get?_kept tidy reserved comes owner path
    rw [List.cons_append, List.findSome?_cons, List.findSome?_cons]
    generalize (Entries.get? (owner, path) table.symbols).map (owner, ·) = first at here
    generalize late : (Entries.get? (owner, path) later.symbols).map (owner, ·) = second at here
    -- What the scope answered it answers later, or an entry or a label has come into it.
    cases here with
    | same =>
      cases first with
      | none => exact rest
      | some => exact .same _
    | entered first => exact .entered first
    | label named => exact .label named
    | minted =>
      -- Labels are minted in the global scope, which this one is not.
      obtain ⟨_, -, same⟩ := Option.map_eq_some_iff.1 late
      exact absurd (Prod.mk.inj same).1 notGlobal

end ScopeTable

/-! ### Answers at a later time -/

namespace View

/-- An answer that is known is given later, too. -/
def Lasts {α : Type} (x y : Except Error (Option α)) : Prop :=
  ∀ ⦃a : α⦄, x = .ok (some a) → y = .ok (some a)

namespace Lasts

variable {α β : Type} {x y : Except Error (Option α)}

/-- The same answer. -/
theorem refl (x : Except Error (Option α)) : Lasts x x :=
  fun _ => id

/-- An error is no answer. -/
theorem error {e : Error} : Lasts (.error e) y :=
  fun _ known => nomatch known

/-- Neither is one that is not known yet. -/
theorem unknown : Lasts (.ok none) y :=
  fun _ known => nomatch known

/-- A question whose answer leads to another one, which is not known before the first. -/
theorem bind {f g : Option α → Except Error (Option β)} (first : Lasts x y)
    (rest : ∀ a, Lasts (f (some a)) (g (some a))) (strict : ∀ b, f none ≠ .ok (some b)) :
    Lasts (x >>= f) (y >>= g) := by
  -- An answer of the whole is one of the rest, so that the first question has an answer as well.
  intro b known
  rw [except_bind_eq_ok] at known ⊢
  obtain ⟨answer, asked, known⟩ := known
  cases answer with
  | none => exact absurd known (strict b)
  | some a => exact ⟨some a, first asked, rest a known⟩

/-- What an answer is made into. -/
theorem map (first : Lasts x y) (f : α → β) :
    Lasts (do return (← x).map f) (do return (← y).map f) :=
  first.bind (fun _ => refl _) nofun

/-- What an expression is folded to does not depend on the view. -/
theorem fold (a b : View) (e : Option Expr) : Lasts (a.fold e) (b.fold e) := by
  -- Only what is there is folded, and folding asks the view for nothing.
  intro value folded
  cases e with
  | none => cases folded
  | some e =>
    simp only [View.fold] at folded ⊢
    cases done : e.fold with
    | error => simp [done] at folded
    | ok => simpa [done] using folded

/-- What is folded when it is known. -/
theorem andFold {x y : Except Error (Option Expr)} (first : Lasts x y) (a b : View)
    (f : Expr → Expr) : Lasts (do a.fold ((← x).map f)) (do b.fold ((← y).map f)) :=
  first.bind (fun _ => fold a b _) nofun

/-- Fields whose sizes last have a size together that lasts. -/
theorem sumSizes {size size' : Field → Except Error (Option Nat)}
    (lasts : ∀ field, Lasts (size field) (size' field)) (fields : List Field) :
    Lasts (View.sumSizes size fields) (View.sumSizes size' fields) := by
  -- Field by field; a sum is known only if each part of it is.
  induction fields with
  | nil => exact refl _
  | cons field others ih => exact (lasts field).bind (fun first => ih.map (Word.add first)) nofun

/-- The offset of a member lasts if the sizes before it do, and the offset inside it. -/
theorem memberOffset {size size' inside inside' : Field → Except Error (Option Nat)}
    {missing missing' : Error} {head : String}
    (lasts : ∀ field, Lasts (size field) (size' field))
    (within : ∀ field, Lasts (inside field) (inside' field)) (fields : List Field) :
    Lasts (View.memberOffset size inside missing head fields)
      (View.memberOffset size' inside' missing' head fields) := by
  -- Field by field up to the one that is named, whose own offset comes on top.
  induction fields with
  | nil => exact error
  | cons field others ih =>
    by_cases named : field.name = head
    · simpa only [View.memberOffset, if_pos named] using within field
    · simpa only [View.memberOffset, if_neg named] using
        (lasts field).bind (fun first => ih.map (Word.add first)) fun _ known => by cases known

end Lasts

/-- A view, and the same view of a table that comes of its own. -/
structure Precedes (a b : View) : Prop where
  /-- Both look from the same namespace. -/
  ns : b.ns = a.ns
  /-- Both follow the same definitions. -/
  trail : b.trail = a.trail
  /-- The first table is tidy. -/
  tidy : a.scopes.Tidy
  /-- Reserved names are those of labels. -/
  reserved : a.scopes.Reserved
  /-- The second table comes of the first. -/
  comes : ∃ limit, a.scopes.Comes limit b.scopes

namespace Precedes

variable {a b : View} (precedes : a.Precedes b)

include precedes

/-- Moving to a namespace at both times. -/
theorem moved (ns : Namespace) : (a.moved ns).Precedes (b.moved ns) :=
  ⟨rfl, precedes.trail, precedes.tidy, precedes.reserved, precedes.comes⟩

/-- A definition that is followed can be followed later. -/
theorem enter {ns : Namespace} {name : String} {a' : View} (entered : a.enter ns name = .ok a') :
    ∃ b', b.enter ns name = .ok b' ∧ a'.Precedes b' := by
  -- It is being followed at both times or at none.
  simp only [View.enter, precedes.trail] at entered ⊢
  split at entered
  · cases entered
  · rename_i fresh
    cases entered
    rw [if_neg fresh]
    exact ⟨_, rfl, rfl, rfl, precedes.tidy, precedes.reserved, precedes.comes⟩

/-- What is asked inside a definition. -/
theorem following {α : Type} {ns : Namespace} {name : String}
    {f g : View → Except Error (Option α)}
    (inside : ∀ a' b', a'.Precedes b' → Lasts (f a') (g b')) :
    Lasts (a.enter ns name >>= f) (b.enter ns name >>= g) := by
  -- Entering lasts: the later view enters what the earlier one does.
  intro answer known
  rw [except_bind_eq_ok] at known ⊢
  obtain ⟨a', entered, known⟩ := known
  obtain ⟨b', entered', precedes'⟩ := precedes.enter entered
  exact ⟨b', entered', inside a' b' precedes' known⟩

/-- What a name leads to at both times. -/
theorem lookup? (path : String) : Kept path (a.lookup? path) (b.lookup? path) := by
  -- The later table comes of the earlier one, and the scope is the same.
  obtain ⟨limit, comes⟩ := precedes.comes
  rw [View.lookup?, View.lookup?, precedes.ns]
  exact ScopeTable.lookup?_kept precedes.tidy precedes.reserved comes path a.ns

end Precedes

/-- All answers last, if a number of definitions may be followed at first and no fewer later. -/
structure Persistence (fuel : Nat) : Prop where
  /-- A name goes on to stand for the same. -/
  name : ∀ {fuel' : Nat} {a b : View}, fuel ≤ fuel' → a.Precedes b → ∀ path,
    Lasts (name fuel a path) (View.name fuel' b path)
  /-- A variable or type keeps its size. -/
  sizeof : ∀ {fuel' : Nat} {a b : View}, fuel ≤ fuel' → a.Precedes b → ∀ path,
    Lasts (sizeof fuel a path) (View.sizeof fuel' b path)
  /-- A type keeps its size. -/
  typeSize : ∀ {fuel' : Nat} {a b : View}, fuel ≤ fuel' → a.Precedes b → ∀ type,
    Lasts (typeSize fuel a type) (View.typeSize fuel' b type)
  /-- A member keeps its offset. -/
  fieldOffset : ∀ {fuel' : Nat} {a b : View}, fuel ≤ fuel' → a.Precedes b → ∀ type path,
    Lasts (fieldOffset fuel a type path) (View.fieldOffset fuel' b type path)

namespace Persistence

variable {fuel fuel' : Nat} {a b : View} (persistence : Persistence fuel) (more : fuel ≤ fuel')

include persistence more

/-- An expression goes on to be bound to the same. -/
theorem bindWith (precedes : a.Precedes b) (e : Expr) :
    Lasts (a.bindWith (View.name fuel a) (View.sizeof fuel a) e)
      (b.bindWith (View.name fuel' b) (View.sizeof fuel' b) e) := by
  -- Names and sizes last, and an operator waits for all of its operands.
  induction e with
  | number | ref => exact .refl _
  | name path => exact (persistence.name more precedes path).bind (fun _ => .fold a b _) nofun
  | sizeof type => exact (persistence.sizeof more precedes type).map _
  | unary op e ih => exact ih.andFold a b _
  | binary op l r left right =>
    refine left.bind (fun l => right.bind (fun r => .fold a b _) nofun) fun value known => ?_
    simp only [except_bind_eq_ok] at known
    obtain ⟨_, -, known⟩ := known
    cases known

/-- A declaration keeps its number of elements. -/
theorem countWith (precedes : a.Precedes b) (dim : Dim) (init : Option Initializer) :
    Lasts (a.countWith (a.bindWith (View.name fuel a) (View.sizeof fuel a)) dim init)
      (b.countWith (b.bindWith (View.name fuel' b) (View.sizeof fuel' b)) dim init) := by
  -- Only a fixed length is bound at all.
  cases dim with
  | scalar => exact .refl _
  | unsized =>
    cases init with
    | none => exact .error
    | some => exact .refl _
  | sized length =>
    -- A length that is known is a number.
    have number : ∀ value, Lasts (a.number (some value)) (b.number (some value)) := by
      intro value
      cases value with
      | number => exact .refl _
      | _ => exact .error
    refine (persistence.bindWith more precedes length).bind (fun value => ?_) nofun
    exact (number value).map _

/-- An array keeps its size. -/
theorem arraySize (precedes : a.Precedes b) (type : String) (dim : Dim)
    (init : Option Initializer) :
    Lasts (a.arraySize fuel type dim init) (b.arraySize fuel' type dim init) := by
  -- The size of the element and the length are asked for one after the other.
  refine (persistence.typeSize more precedes type).bind (fun size => ?_) fun value known => ?_
  · exact (persistence.countWith more precedes dim init).bind (fun count => .refl _) nofun
  · simp only [except_bind_eq_ok, except_pure_eq_ok] at known
    obtain ⟨_, -, known⟩ := known
    cases known

/-- A variable goes on to stand for the same. -/
theorem variableAt (precedes : a.Precedes b) (ns : Namespace) (var : Variable) :
    Lasts (a.variableAt fuel ns var) (b.variableAt fuel' ns var) := by
  -- An address is bound inside the variable, in both views.
  unfold View.variableAt
  cases var.address with
  | none => exact .refl _
  | some address => exact precedes.following fun _ _ inside =>
      persistence.bindWith more inside address

/-- A symbol goes on to stand for the same. -/
theorem symbolAt (precedes : a.Precedes b) (ns : Namespace) (symbol : Symbol) :
    Lasts (a.symbolAt fuel ns symbol) (b.symbolAt fuel' ns symbol) := by
  -- Functions that are called keep their entry once they have it; the others are no values.
  cases symbol with
  | label => exact .refl _
  | var var => exact persistence.variableAt more precedes ns var
  | type => exact .error
  | function func =>
    simp only [View.symbolAt]
    split
    · exact .error
    · exact .refl _

/-- A member of the same thing goes on to stand for the same. -/
theorem memberAt (precedes : a.Precedes b) (head member : String)
    (found : Option (Namespace × Symbol)) :
    Lasts (a.memberAt fuel head member found) (b.memberAt fuel' head member found) := by
  -- One case for each kind of thing that may have a member.
  rcases found with _ | ⟨ns, var | func | label | (d | d | d)⟩
  · exact .refl _
  · -- The member lies at its offset behind the variable.
    refine (persistence.variableAt more precedes ns var).bind (fun base => ?_) nofun
    exact (persistence.fieldOffset more (precedes.moved ns) var.type member).map _
  · exact persistence.name more (precedes.moved _) member
  · exact .error
  · exact .error
  · exact .error
  · unfold View.memberAt
    simp only
    split
    · exact .refl _
    · exact .error

/-- A name goes on to stand for the same, if what it is defined by does. -/
theorem name_succ (precedes : a.Precedes b) (path : String) :
    Lasts (View.name (fuel + 1) a path) (View.name (fuel' + 1) b path) := by
  -- What the name leads to at both times decides.
  have kept := precedes.lookup? path
  rw [View.name_succ, View.name_succ]
  generalize a.lookup? path = first at kept
  generalize b.lookup? path = second at kept
  cases kept with
  | entered first =>
    -- A function without an entry stands for nothing yet.
    simp only [View.symbolAt, first]
    split
    · exact .error
    · exact .unknown
  | label named =>
    simp only [View.symbolAt, named]
    exact .refl _
  | minted reserved =>
    -- A name that a label may be minted under has no members.
    rw [reserved, Session.splitHead_labelName]
    exact .unknown
  | same =>
    rcases first with _ | ⟨ns, symbol⟩
    · rcases Text.splitHead path with _ | ⟨head, member⟩
      · exact .unknown
      · -- Nothing has the whole name, so it may be that of a member.
        have kept := precedes.lookup? head
        simp only
        generalize a.lookup? head = first at kept
        generalize b.lookup? head = second at kept
        cases kept with
        | same => exact persistence.memberAt more precedes head member first
        | entered => exact persistence.name more (precedes.moved _) member
        | label => exact .error
        | minted => exact .unknown
    · exact persistence.symbolAt more precedes ns symbol

/-- A type keeps its size, if what it is defined by does. -/
theorem typeSize_succ (precedes : a.Precedes b) (type : String) :
    Lasts (View.typeSize (fuel + 1) a type) (View.typeSize (fuel' + 1) b type) := by
  -- The name of a type leads to the same symbol later, for types are not minted.
  have kept := precedes.lookup? type
  rw [View.typeSize_succ, View.typeSize_succ]
  -- A built-in size does not depend on the table.
  cases builtinSize? type with
  | some => exact .refl _
  | none =>
    simp only
    generalize a.lookup? type = first at kept
    generalize b.lookup? type = second at kept
    -- A name that only came later was an error before.
    cases kept with
    | entered | label | minted => exact .error
    | same =>
      rcases first with _ | ⟨ns, var | func | label | (d | d | d)⟩
      · -- A name that leads nowhere is no type; variables, functions and labels are none either.
        exact .error
      · exact .error
      · exact .error
      · exact .error
      · -- A struct is as large as its fields, seen from inside it.
        exact precedes.following fun _ _ inside => .sumSizes
          (fun field => persistence.arraySize more inside field.type field.dim none) d.fields
      · -- A typedef is as large as its array, and an enumeration one byte.
        exact precedes.following fun _ _ inside =>
          persistence.arraySize more inside d.type d.dim none
      · exact .refl _

/-- A variable or type keeps its size, if what it is defined by does. -/
theorem sizeof_succ (precedes : a.Precedes b) (path : String) :
    Lasts (View.sizeof (fuel + 1) a path) (View.sizeof (fuel' + 1) b path) := by
  -- A name that leads to no variable is asked for as a type.
  have kept := precedes.lookup? path
  have asType : Lasts (View.typeSize fuel a path) (View.typeSize fuel' b path) :=
    persistence.typeSize more precedes path
  rw [View.sizeof_succ, View.sizeof_succ]
  generalize a.lookup? path = first at kept
  generalize b.lookup? path = second at kept
  cases kept with
  | entered | label | minted => exact asType
  | same =>
    rcases first with _ | ⟨ns, var | func | label | type⟩
    · exact asType
    · exact persistence.arraySize more (precedes.moved ns) var.type var.dim var.init
    · exact asType
    · exact asType
    · exact asType

/-- A member keeps its offset, if what its type is defined by lasts. -/
theorem fieldOffset_succ (precedes : a.Precedes b) (type path : String) :
    Lasts (View.fieldOffset (fuel + 1) a type path)
      (View.fieldOffset (fuel' + 1) b type path) := by
  -- What has members is a struct or a scalar typedef; both are found again later.
  have kept := precedes.lookup? type
  rw [View.fieldOffset_succ, View.fieldOffset_succ]
  generalize a.lookup? type = first at kept
  generalize b.lookup? type = second at kept
  -- A name that only came later was an error before.
  cases kept with
  | entered | label | minted => exact .error
  | same =>
    rcases first with _ | ⟨ns, var | func | label | (d | d | d)⟩
    · -- Of what a name leads to, a struct and a typedef have fields.
      exact .error
    · exact .error
    · exact .error
    · exact .error
    · have inside := precedes.moved ns
      refine .memberOffset
        (fun field => persistence.arraySize more inside field.type field.dim none)
        (fun field => ?_) d.fields
      -- The path ends at the field, or goes on inside it.
      cases (headOf path).2 with
      | none => exact .refl _
      | some rest => exact persistence.fieldOffset more inside field.type rest
    · -- A typedef passes the question on, unless it is one of an array.
      by_cases scalar : d.dim = .scalar
      · simp only [if_pos scalar]
        exact precedes.following fun _ _ inside => persistence.fieldOffset more inside d.type path
      · simp only [if_neg scalar]
        exact .error
    · exact .error

end Persistence

/-- However many definitions may be followed, all answers last. -/
theorem persistence (fuel : Nat) : Persistence fuel := by
  -- Where one may be followed at first, one may be followed later.
  induction fuel with
  | zero => constructor <;> intros <;> exact .error
  | succ fuel ih =>
    constructor <;> intro fuel' a b more precedes <;> obtain _ | fuel' := fuel' <;>
      first | omega | skip
    · exact ih.name_succ (by omega) precedes
    · exact ih.sizeof_succ (by omega) precedes
    · exact ih.typeSize_succ (by omega) precedes
    · exact ih.fieldOffset_succ (by omega) precedes

variable {a b : View}

/-- A table that weighs no less allows no fewer definitions to be followed. -/
theorem fuel_le (heavier : a.scopes.weight ≤ b.scopes.weight) (question : Nat) :
    a.fuel question ≤ b.fuel question := by
  -- The bound is a product, each factor of which grows with the weight.
  have size : a.scopes.weight + question + 4 ≤ b.scopes.weight + question + 4 := by omega
  exact Nat.mul_le_mul (Nat.mul_le_mul (Nat.mul_le_mul size size) size) size

/-- What an expression is bound to, it is bound to later. -/
theorem Precedes.bind (precedes : a.Precedes b) (heavier : a.scopes.weight ≤ b.scopes.weight)
    (e : Expr) : Lasts (a.bind e) (b.bind e) :=
  (persistence _).bindWith (fuel_le heavier _) precedes e

end View

end CrossAsm
