import CrossAsm.Proofs.Binding.Agreement

/-! Questions: what is asked of the symbols while an expression is bound, and which further questions
an answer may need. A relation between answers that lasts through one step lasts through all. -/

namespace CrossAsm

/-! ### Questions, and what they lead to -/

/-- A question that is asked from a namespace. -/
inductive Question where
  /-- What a name stands for. -/
  | name (path : String)
  /-- The size of a variable or a type. -/
  | sizeof (path : String)
  /-- The size of a type. -/
  | typeSize (type : String)
  /-- The offset of a member inside a type. -/
  | fieldOffset (type path : String)
  deriving DecidableEq

/-- What is answered when the answer is known. -/
def Question.Answer : Question → Type
  | .name _ => Expr
  | .sizeof _ | .typeSize _ | .fieldOffset .. => Nat

/-- The number of characters in the names of a question, and the question itself. -/
def Question.weight : Question → Nat
  | .name path | .sizeof path => path.length + 1
  | .typeSize _ => 1
  | .fieldOffset _ path => path.length + 2

/-- The questions of an expression, from left to right. -/
def Expr.questions : Expr → List Question
  | .number _ | .ref _ => []
  | .name path => [.name path]
  | .sizeof type => [.sizeof type]
  | .unary _ e => e.questions
  | .binary _ l r => l.questions ++ r.questions

/-- A question of an expression weighs no more than the expression. -/
theorem Expr.weight_le_of_mem {e : Expr} {q : Question} (inside : q ∈ e.questions) :
    q.weight ≤ e.weight := by
  -- The expression weighs as much as its parts together, and a part no less than its questions.
  induction e with
  | number | ref => cases inside
  | name | sizeof =>
    obtain rfl := List.mem_singleton.1 inside
    exact Nat.le_refl _
  | unary op e ih => exact Nat.le_succ_of_le (ih inside)
  | binary op l r left right =>
    rw [Expr.weight]
    rcases List.mem_append.1 inside with first | second
    · have := left first
      omega
    · have := right second
      omega

/-- The questions of a length. -/
def Dim.questions : Dim → List Question
  | .scalar | .unsized => []
  | .sized length => length.questions

/-- The questions that the size of an array of a type needs. -/
def arrayQuestions (type : String) (dim : Dim) : List Question :=
  .typeSize type :: dim.questions

/-- How a view changes on the way to another question: it moves to a namespace, or into a definition
that stands in one. -/
inductive Move where
  | across (ns : Namespace)
  | into (ns : Namespace) (name : String)
  deriving DecidableEq

/-- Where a move leads. -/
def Move.ns : Move → Namespace
  | .across ns | .into ns _ => ns

namespace ScopeTable

variable (table : ScopeTable)

/-- The symbol that a question from a namespace is about, and where it is defined. Of a path that has
no symbol itself this is the symbol of its head. -/
inductive Names (ns : Namespace) : Question → Namespace → Symbol → Prop
  | whole {path : String} {owner : Namespace} {symbol : Symbol}
    (found : table.lookup? path ns = some (owner, symbol)) : Names ns (.name path) owner symbol
  | head {path head member : String} {owner : Namespace} {symbol : Symbol}
    (absent : table.lookup? path ns = none) (split : Text.splitHead path = some (head, member))
    (found : table.lookup? head ns = some (owner, symbol)) : Names ns (.name path) owner symbol
  | sizeof {path : String} {owner : Namespace} {symbol : Symbol}
    (found : table.lookup? path ns = some (owner, symbol)) : Names ns (.sizeof path) owner symbol
  | typeSize {type : String} {owner : Namespace} {symbol : Symbol}
    (found : table.lookup? type ns = some (owner, symbol)) : Names ns (.typeSize type) owner symbol
  | fieldOffset {type path : String} {owner : Namespace} {symbol : Symbol}
    (found : table.lookup? type ns = some (owner, symbol)) :
    Names ns (.fieldOffset type path) owner symbol

/-- The questions that the answer to a question may need, and how the view changes on the way. -/
inductive Asks (ns : Namespace) : Question → Move → Question → Prop
  /-- A variable stands for its fixed address, if it has one. -/
  | address {path : String} {owner : Namespace} {var : Variable} {e : Expr} {q : Question}
    (names : table.Names ns (.name path) owner (.var var)) (fixed : var.address = some e)
    (inside : q ∈ e.questions) : Asks ns (.name path) (.into owner var.name) q
  /-- A member of a variable lies at its offset. -/
  | member {path head member : String} {owner : Namespace} {var : Variable}
    (absent : table.lookup? path ns = none) (split : Text.splitHead path = some (head, member))
    (found : table.lookup? head ns = some (owner, .var var)) :
    Asks ns (.name path) (.across owner) (.fieldOffset var.type member)
  /-- What stands in a function is looked up from there. -/
  | inFunction {path head member : String} {owner : Namespace} {func : FunctionSymbol}
    (absent : table.lookup? path ns = none) (split : Text.splitHead path = some (head, member))
    (found : table.lookup? head ns = some (owner, .function func)) :
    Asks ns (.name path) (.across (Namespace.global.child head)) (.name member)
  /-- A variable is an array of its type. -/
  | elements {path : String} {owner : Namespace} {var : Variable} {q : Question}
    (found : table.lookup? path ns = some (owner, .var var))
    (inside : q ∈ arrayQuestions var.type var.dim) : Asks ns (.sizeof path) (.across owner) q
  /-- What is no variable is a type. -/
  | asType {path : String} : Asks ns (.sizeof path) (.across ns) (.typeSize path)
  /-- A struct is as large as its fields. -/
  | fields {type : String} {owner : Namespace} {d : StructDef} {field : Field} {q : Question}
    (other : builtinSize? type = none)
    (found : table.lookup? type ns = some (owner, .type (.struct d))) (among : field ∈ d.fields)
    (inside : q ∈ arrayQuestions field.type field.dim) :
    Asks ns (.typeSize type) (.into owner d.name) q
  /-- A typedef is an array of its target. -/
  | target {type : String} {owner : Namespace} {d : Typedef} {q : Question}
    (other : builtinSize? type = none)
    (found : table.lookup? type ns = some (owner, .type (.typedef d)))
    (inside : q ∈ arrayQuestions d.type d.dim) : Asks ns (.typeSize type) (.into owner d.name) q
  /-- A member lies behind the fields before it. -/
  | before {type path : String} {owner : Namespace} {d : StructDef} {field : Field} {q : Question}
    (found : table.lookup? type ns = some (owner, .type (.struct d)))
    (among : field ∈ d.fields.takeWhile fun field => field.name ≠ (View.headOf path).1)
    (inside : q ∈ arrayQuestions field.type field.dim) :
    Asks ns (.fieldOffset type path) (.across owner) q
  /-- A path may go on inside a member. -/
  | within {type path rest : String} {owner : Namespace} {d : StructDef} {field : Field}
    (found : table.lookup? type ns = some (owner, .type (.struct d)))
    (first : d.fields.find? (·.name = (View.headOf path).1) = some field)
    (onward : (View.headOf path).2 = some rest) :
    Asks ns (.fieldOffset type path) (.across owner) (.fieldOffset field.type rest)
  /-- A scalar typedef has the members of its target. -/
  | renamed {type path : String} {owner : Namespace} {d : Typedef}
    (found : table.lookup? type ns = some (owner, .type (.typedef d)))
    (scalar : d.dim = .scalar) :
    Asks ns (.fieldOffset type path) (.into owner d.name) (.fieldOffset d.type path)

end ScopeTable

namespace View

/-- The view behind a move, unless the definition is being followed already. -/
def go (view : View) : Move → Except Error View
  | .across ns => .ok (view.moved ns)
  | .into ns name => view.enter ns name

/-- The answer to a question, following at most a number of definitions. -/
def ask (fuel : Nat) (view : View) : (q : Question) → Except Error (Option q.Answer)
  | .name path => name fuel view path
  | .sizeof path => sizeof fuel view path
  | .typeSize type => typeSize fuel view type
  | .fieldOffset type path => fieldOffset fuel view type path

/-- Without definitions there are no answers. -/
theorem ask_zero (view : View) (q : Question) :
    view.ask 0 q = .error (.endlessDefinition view.pos) := by
  -- Each kind of question runs out at once.
  cases q <;> rfl

/-! ### Relations between answers -/

/-- Views onto one table from one namespace, which may follow different definitions. -/
structure Beside (a b : View) : Prop where
  /-- Both see the same symbols. -/
  scopes : b.scopes = a.scopes
  /-- Both look from the same namespace. -/
  ns : b.ns = a.ns
  /-- Both report errors at the same place. -/
  pos : b.pos = a.pos

end View

/-- An error that is found at a definition, and not on the way to one. -/
inductive Error.Found : Error → Prop
  | eval {pos : Pos} {cause : EvalError} : Found (.eval pos cause)
  | notAConstant {pos : Pos} {expr : String} : Found (.notAConstant pos expr)
  | notAValue {pos : Pos} {name : String} : Found (.notAValue pos name)
  | noSuchMember {pos : Pos} {owner member : String} : Found (.noSuchMember pos owner member)
  | unknownType {pos : Pos} {name : String} : Found (.unknownType pos name)

/-- A relation between answers that is kept when questions are asked one after another. -/
structure Coherent (R : (α : Type) → Except Error α → Except Error α → Prop) : Prop where
  /-- The same answer. -/
  ok : ∀ {α : Type} (a : α), R α (.ok a) (.ok a)
  /-- The same error. -/
  error : ∀ {α : Type} {e : Error}, e.Found → R α (.error e) (.error e)
  /-- Questions one after another. -/
  bind : ∀ {α β : Type} {x y : Except Error α} {f g : α → Except Error β}, R α x y →
    (∀ a, R β (f a) (g a)) → R β (x >>= f) (y >>= g)

namespace View

/-- A definition is entered from both views, or the error that it is not stands in the relation to
whatever would be asked behind it. -/
def Entered (R : (α : Type) → Except Error α → Except Error α → Prop) (a b : View) (ns : Namespace)
    (name : String) : Prop :=
  match a.enter ns name with
  | .ok _ => ∃ b', b.enter ns name = .ok b'
  | .error e => ∀ (α : Type) (k : View → Except Error α), R α (.error e) (b.enter ns name >>= k)

/-- What is asked inside a definition that is entered. -/
theorem Entered.bind {R : (α : Type) → Except Error α → Except Error α → Prop} {a b : View}
    {ns : Namespace} {name : String} (entered : Entered R a b ns name) {α : Type}
    {f g : View → Except Error α}
    (inside : ∀ a' b', a.go (.into ns name) = .ok a' → b.go (.into ns name) = .ok b' →
      R _ (f a') (g b')) :
    R _ (a.enter ns name >>= f) (b.enter ns name >>= g) := by
  -- Where the first view fails to enter, the relation holds of its error and anything.
  unfold Entered at entered
  cases left : a.enter ns name with
  | error e =>
    rw [left] at entered
    exact entered α g
  | ok a' =>
    rw [left] at entered
    obtain ⟨b', right⟩ := entered
    rw [right]
    exact inside a' b' left right

/-- Every view lies beside itself. -/
theorem Beside.refl (view : View) : view.Beside view :=
  ⟨rfl, rfl, rfl⟩

namespace Beside

variable {a b : View} (beside : a.Beside b)

include beside

/-- Both views find the same. -/
theorem lookup? (path : String) : b.lookup? path = a.lookup? path := by
  -- A name is looked up in the table from the scope, and both are the same.
  rw [View.lookup?, View.lookup?, beside.scopes, beside.ns]

/-- Views that move to a namespace stay beside each other. -/
theorem moved (ns : Namespace) : (a.moved ns).Beside (b.moved ns) :=
  ⟨beside.scopes, rfl, beside.pos⟩

/-- Views that go on stay beside each other. -/
theorem go {move : Move} {a' b' : View} (left : a.go move = .ok a') (right : b.go move = .ok b') :
    a'.Beside b' := by
  cases move with
  | across ns =>
    cases left
    cases right
    exact beside.moved ns
  | into ns name =>
    simp only [View.go, enter] at left right
    -- Only the definitions that are followed may differ.
    split at left
    · cases left
    · split at right
      · cases right
      · cases left
        cases right
        exact ⟨beside.scopes, rfl, beside.pos⟩

end Beside

end View

namespace Coherent

variable {R : (α : Type) → Except Error α → Except Error α → Prop} (coherent : Coherent R)
  {a b : View} {m n : Nat}

include coherent

/-- What an answer is made into. -/
theorem map {α β : Type} {x y : Except Error (Option α)} (first : R _ x y) (f : α → β) :
    R _ (do return (← x).map f) (do return (← y).map f) :=
  coherent.bind first fun _ => coherent.ok _

/-- What is folded. -/
theorem fold (beside : a.Beside b) (e : Option Expr) : R _ (a.fold e) (b.fold e) := by
  -- Only the position of an error depends on the view, and both views have the same.
  cases e with
  | none => exact coherent.ok _
  | some e =>
    simp only [View.fold, beside.pos]
    split
    · exact coherent.ok _
    · exact coherent.error .eval

/-- What is bound, if its questions are answered. -/
theorem bindWith (beside : a.Beside b) {e : Expr}
    (answers : ∀ q ∈ e.questions, R _ (a.ask m q) (b.ask n q)) :
    R _ (a.bindWith (View.name m a) (View.sizeof m a) e)
      (b.bindWith (View.name n b) (View.sizeof n b) e) := by
  -- Operand by operand, and then the operator over them.
  induction e with
  | number | ref => exact coherent.ok _
  | name path =>
    have named : R _ (View.name m a path) (View.name n b path) :=
      answers (.name path) List.mem_cons_self
    exact coherent.bind named fun _ => coherent.fold beside _
  | sizeof type =>
    have sized : R _ (View.sizeof m a type) (View.sizeof n b type) :=
      answers (.sizeof type) List.mem_cons_self
    exact coherent.map sized _
  | unary op e ih => exact coherent.bind (ih answers) fun _ => coherent.fold beside _
  | binary op l r left right =>
    rw [Expr.questions, List.forall_mem_append] at answers
    refine coherent.bind (left answers.1) fun l' => coherent.bind (right answers.2) fun r' => ?_
    -- Nothing is folded while an operand is not known.
    cases l' <;> cases r' <;> first | exact coherent.ok _ | exact coherent.fold beside _

/-- What is counted, if the questions of the length are answered. -/
theorem countWith (beside : a.Beside b) {dim : Dim} (init : Option Initializer)
    (answers : ∀ q ∈ dim.questions, R _ (a.ask m q) (b.ask n q)) :
    R _ (a.countWith (a.bindWith (View.name m a) (View.sizeof m a)) dim init)
      (b.countWith (b.bindWith (View.name n b) (View.sizeof n b)) dim init) := by
  -- A fixed length is the only one that is bound.
  cases dim with
  | scalar => exact coherent.ok _
  | unsized =>
    simp only [View.countWith, beside.pos]
    cases init with
    | none => exact coherent.error .notAConstant
    | some => exact coherent.ok _
  | sized length =>
    refine coherent.bind (coherent.bindWith beside answers) fun bound => coherent.map ?_ _
    -- A length is a number or it is not, from both views.
    rcases bound with _ | e
    · exact coherent.ok _
    · cases e <;> simp only [View.number, beside.pos] <;>
        first | exact coherent.ok _ | exact coherent.error .notAConstant

/-- The size of an array, if its questions are answered. -/
theorem arraySize (beside : a.Beside b) {type : String} {dim : Dim} (init : Option Initializer)
    (answers : ∀ q ∈ arrayQuestions type dim, R _ (a.ask m q) (b.ask n q)) :
    R _ (a.arraySize m type dim init) (b.arraySize n type dim init) := by
  -- The type of the element is the first of the questions.
  rw [arrayQuestions, List.forall_mem_cons] at answers
  have sized : R _ (View.typeSize m a type) (View.typeSize n b type) := answers.1
  exact coherent.bind sized fun _ =>
    coherent.bind (coherent.countWith beside init answers.2) fun _ => coherent.ok _

/-- The size of fields, if each of them has its size. -/
theorem sumSizes {size size' : Field → Except Error (Option Nat)} {fields : List Field}
    (sizes : ∀ field ∈ fields, R _ (size field) (size' field)) :
    R _ (View.sumSizes size fields) (View.sumSizes size' fields) := by
  -- Where one of the fields has no size yet, neither has the sum.
  induction fields with
  | nil => exact coherent.ok _
  | cons field others ih =>
    rw [List.forall_mem_cons] at sizes
    refine coherent.bind sizes.1 fun first => ?_
    cases first with
    | none => exact coherent.ok _
    | some first => exact coherent.map (ih sizes.2) _

/-- The offset of a member, if the fields before it have their sizes and what it asks inside of it is
answered. -/
theorem memberOffset {size size' inside inside' : Field → Except Error (Option Nat)}
    {missing : Error} {head : String} {fields : List Field} (found : missing.Found)
    (sizes : ∀ field ∈ fields.takeWhile (·.name ≠ head), R _ (size field) (size' field))
    (insides : ∀ field, fields.find? (·.name = head) = some field →
      R _ (inside field) (inside' field)) :
    R _ (View.memberOffset size inside missing head fields)
      (View.memberOffset size' inside' missing head fields) := by
  -- Field by field, up to the first one of the name.
  induction fields with
  | nil => exact coherent.error found
  | cons field others ih =>
    by_cases named : field.name = head
    · simpa only [View.memberOffset, if_pos named] using insides field (by simp [named])
    · simp only [View.memberOffset, if_neg named]
      have others : R _ (size field) (size' field) ∧
          ∀ field ∈ others.takeWhile (·.name ≠ head), R _ (size field) (size' field) := by
        simpa [named] using sizes
      refine coherent.bind others.1 fun first => ?_
      cases first with
      | none => exact coherent.ok _
      | some first => exact coherent.map (ih others.2 (by simpa [named] using insides)) _

end Coherent

section Answering

variable {R : (α : Type) → Except Error α → Except Error α → Prop} {a b : View} {m n : Nat}

/-- The questions that a question may lead to are answered. -/
def AnswersFor (R : (α : Type) → Except Error α → Except Error α → Prop) (m n : Nat) (a b : View)
    (q : Question) : Prop :=
  ∀ (move : Move) (q' : Question), a.scopes.Asks a.ns q move q' →
    ∀ a' b' : View, a.go move = .ok a' → b.go move = .ok b' → R _ (a'.ask m q') (b'.ask n q')

/-- The definitions that a question is about are entered. -/
def EntersFor (R : (α : Type) → Except Error α → Except Error α → Prop) (a b : View)
    (q : Question) : Prop :=
  ∀ (owner : Namespace) (symbol : Symbol), a.scopes.Names a.ns q owner symbol →
    View.Entered R a b owner symbol.name

variable (coherent : Coherent R) (beside : a.Beside b)

include coherent beside

/-- A variable that a name is about. -/
theorem Coherent.variableAt {path : String} {owner : Namespace} {var : Variable}
    (answers : AnswersFor R m n a b (.name path)) (enters : EntersFor R a b (.name path))
    (names : a.scopes.Names a.ns (.name path) owner (.var var)) :
    R _ (a.variableAt m owner var) (b.variableAt n owner var) := by
  -- A free variable stands for its name; a fixed one for its address, seen from inside it.
  unfold View.variableAt
  cases fixed : var.address with
  | none => exact coherent.ok _
  | some e =>
    refine (enters _ _ names).bind fun a' b' left right => ?_
    exact coherent.bindWith (beside.go left right) fun q inside =>
      answers _ _ (.address names fixed inside) _ _ left right

/-- A name, if the questions that it leads to are answered. -/
theorem Coherent.name_succ {path : String} (answers : AnswersFor R m n a b (.name path))
    (enters : EntersFor R a b (.name path)) :
    R _ (View.name (m + 1) a path) (View.name (n + 1) b path) := by
  -- What the whole name leads to is asked first, then what its head leads to.
  rw [View.name_succ, View.name_succ, beside.lookup?]
  -- The whole name leads to a symbol.
  cases found : a.lookup? path with
  | some entry =>
    obtain ⟨owner, symbol⟩ := entry
    cases symbol with
    | label => exact coherent.ok _
    | var var => exact coherent.variableAt beside answers enters (.whole found)
    | function func =>
      -- A function is its entry, which only an inline one lacks.
      simp only [View.symbolAt, beside.pos]
      split
      · exact coherent.error .notAValue
      · exact coherent.ok _
    | type =>
      simp only [View.symbolAt, beside.pos]
      exact coherent.error .notAValue
  | none =>
    -- Otherwise its head leads to something with members, or to nothing.
    cases split : Text.splitHead path with
    | none => exact coherent.ok _
    | some parts =>
      obtain ⟨head, member⟩ := parts
      simp only [beside.lookup?]
      rcases leads : a.lookup? head with _ | ⟨owner, var | func | label | (d | d | d)⟩ <;>
        simp only [View.memberAt, beside.pos]
      · exact coherent.ok _
      · -- A member lies behind the variable.
        refine coherent.bind
          (coherent.variableAt beside answers enters (.head found split leads)) fun base => ?_
        cases base with
        | none => exact coherent.ok _
        | some base => exact coherent.map (answers _ _ (.member found split leads) _ _ rfl rfl) _
      · -- Inside of a function the rest of the name is asked for; an enumeration knows its members.
        exact answers _ _ (.inFunction found split leads) _ _ rfl rfl
      · exact coherent.error .noSuchMember
      · exact coherent.error .noSuchMember
      · exact coherent.error .noSuchMember
      · split
        · exact coherent.ok _
        · exact coherent.error .noSuchMember

/-- A size, if the questions that it leads to are answered. -/
theorem Coherent.sizeof_succ {path : String} (answers : AnswersFor R m n a b (.sizeof path)) :
    R _ (View.sizeof (m + 1) a path) (View.sizeof (n + 1) b path) := by
  -- A variable is as large as its array; anything else is asked for as a type.
  have asType : R _ (View.typeSize m a path) (View.typeSize n b path) :=
    answers _ _ .asType _ _ rfl (by rw [← beside.ns]; rfl)
  rw [View.sizeof_succ, View.sizeof_succ, beside.lookup?]
  rcases found : a.lookup? path with _ | ⟨owner, var | func | label | type⟩
  · exact asType
  · exact coherent.arraySize (beside.moved owner) _ fun q inside =>
      answers _ _ (.elements found inside) _ _ rfl rfl
  · exact asType
  · exact asType
  · exact asType

/-- The size of a type, if the questions that it leads to are answered. -/
theorem Coherent.typeSize_succ {type : String} (answers : AnswersFor R m n a b (.typeSize type))
    (enters : EntersFor R a b (.typeSize type)) :
    R _ (View.typeSize (m + 1) a type) (View.typeSize (n + 1) b type) := by
  -- Types of the language are known; others have the size of what they are made of.
  rw [View.typeSize_succ, View.typeSize_succ, beside.lookup?, beside.pos]
  cases other : builtinSize? type with
  | some => exact coherent.ok _
  | none =>
    rcases found : a.lookup? type with _ | ⟨owner, var | func | label | (d | d | d)⟩
    · exact coherent.error .unknownType
    · exact coherent.error .unknownType
    · exact coherent.error .unknownType
    · exact coherent.error .unknownType
    · -- The fields are seen from inside the struct.
      refine (enters _ _ (.typeSize found)).bind fun a' b' left right => ?_
      exact coherent.sumSizes fun field among =>
        coherent.arraySize (beside.go left right) _ fun q inside =>
          answers _ _ (.fields other found among inside) _ _ left right
    · refine (enters _ _ (.typeSize found)).bind fun a' b' left right => ?_
      exact coherent.arraySize (beside.go left right) _ fun q inside =>
        answers _ _ (.target other found inside) _ _ left right
    · exact coherent.ok _

/-- An offset, if the questions that it leads to are answered. -/
theorem Coherent.fieldOffset_succ {type path : String}
    (answers : AnswersFor R m n a b (.fieldOffset type path))
    (enters : EntersFor R a b (.fieldOffset type path)) :
    R _ (View.fieldOffset (m + 1) a type path) (View.fieldOffset (n + 1) b type path) := by
  -- The fields before the member are measured, and the rest of the path is asked for inside it.
  rw [View.fieldOffset_succ, View.fieldOffset_succ, beside.lookup?, beside.pos]
  rcases found : a.lookup? type with _ | ⟨owner, var | func | label | (d | d | d)⟩
  · exact coherent.error .noSuchMember
  · exact coherent.error .noSuchMember
  · exact coherent.error .noSuchMember
  · exact coherent.error .noSuchMember
  · refine coherent.memberOffset .noSuchMember (fun field among => ?_) fun field first => ?_
    · exact coherent.arraySize (beside.moved owner) _ fun q inside =>
        answers _ _ (.before found among inside) _ _ rfl rfl
    · -- The path ends at the field, or goes on inside it.
      cases onward : (View.headOf path).2 with
      | none => exact coherent.ok _
      | some rest => exact answers _ _ (.within found first onward) _ _ rfl rfl
  · by_cases scalar : d.dim = .scalar
    · simp only [if_pos scalar]
      exact (enters _ _ (.fieldOffset found)).bind fun a' b' left right =>
        answers _ _ (.renamed found scalar) _ _ left right
    · simp only [if_neg scalar]
      exact coherent.error .noSuchMember
  · exact coherent.error .noSuchMember

/-- A question, if the questions that it leads to are answered. -/
theorem Coherent.ask_succ {q : Question} (answers : AnswersFor R m n a b q)
    (enters : EntersFor R a b q) : R _ (a.ask (m + 1) q) (b.ask (n + 1) q) := by
  -- One lemma for each kind of question.
  cases q with
  | name path => exact coherent.name_succ beside answers enters
  | sizeof path => exact coherent.sizeof_succ beside answers
  | typeSize type => exact coherent.typeSize_succ beside answers enters
  | fieldOffset type path => exact coherent.fieldOffset_succ beside answers enters

end Answering

namespace View

/-- A definition that is entered is entered whatever is asked, and so is the error that it is not. -/
theorem entersFor_of_same {view : View}
    {R : (α : Type) → Except Error α → Except Error α → Prop}
    (same : ∀ {α : Type} (e : Error), (∃ key, e = .recursiveDefinition view.pos key) →
      R α (.error e) (.error e)) (q : Question) : EntersFor R view view q := by
  -- One view enters what it enters, and an error of entering is about a recursive definition.
  intro owner symbol _
  unfold Entered
  cases entered : view.enter owner symbol.name with
  | ok => exact ⟨_, rfl⟩
  | error e =>
    intro α k
    refine same e ?_
    simp only [enter] at entered
    split at entered
    · cases entered
      exact ⟨_, rfl⟩
    · cases entered

end View

end CrossAsm
