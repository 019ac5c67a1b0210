import CrossAsm.Proofs.Binding.Enough

/-! Members: what a path leads to inside a type lies inside the type, and apart from whatever else a
path leads to in it. This holds of every type that takes up fewer bytes than there are words; the size
of a larger one, and the offsets in it, have started again from zero. -/

namespace CrossAsm

/-! ### Paths into types -/

/-- A dotted path is the first parts of another one, or all of them. -/
def Text.Opens (path other : String) : Prop :=
  splitDots path.toList <+: splitDots other.toList

instance (path other : String) : Decidable (Text.Opens path other) :=
  inferInstanceAs (Decidable (_ <+: _))

namespace View

/-- The parts of a path are its head and the parts of what follows. -/
theorem splitDots_path (path : String) :
    Text.splitDots path.toList = (headOf path).1.toList ::
      ((headOf path).2.map fun rest => Text.splitDots rest.toList).getD [] := by
  -- Both cut the path at its first dot, if it has one.
  unfold headOf Text.splitHead
  cases cut : Text.cutAtDot path.toList with
  | none => simp [Text.splitDots_of_uncut cut]
  | some parts => simp [Text.splitDots_of_cut cut]

variable {path path' rest rest' : String}

/-- A path without a dot opens every path with that head. -/
theorem opens_of_last (last : (headOf path).2 = none) (same : (headOf path).1 = (headOf path').1) :
    Text.Opens path path' := by
  -- The parts of the first path are its head alone.
  rw [Text.Opens, splitDots_path, splitDots_path, last, same]
  exact List.cons_prefix_cons.2 ⟨rfl, List.nil_prefix⟩

/-- Paths with one head open each other as what follows it does. -/
theorem opens_of_rest (onward : (headOf path).2 = some rest) (onward' : (headOf path').2 = some rest')
    (same : (headOf path).1 = (headOf path').1) (opens : Text.Opens rest rest') :
    Text.Opens path path' := by
  -- The parts of both paths start with the same head.
  rw [Text.Opens, splitDots_path, splitDots_path path', onward, onward', same]
  exact List.cons_prefix_cons.2 ⟨rfl, opens⟩

end View

/-- A path leads from a type, as seen from a namespace, through fields to the one it ends at. Each
field is given with the namespace that its struct is declared in. -/
inductive ScopeTable.Reaches (table : ScopeTable) :
    Namespace → String → String → List (Namespace × Field) → Namespace × Field → Prop
  /-- A name is that of the first field that has it. -/
  | last {ns owner : Namespace} {type path : String} {d : StructDef} {field : Field}
    (found : table.lookup? type ns = some (owner, .type (.struct d)))
    (whole : (View.headOf path).2 = none)
    (first : d.fields.find? (·.name = (View.headOf path).1) = some field) :
    Reaches table ns type path [] (owner, field)
  /-- What follows a dot is looked for in the type of the field before it. -/
  | inside {ns owner : Namespace} {type path rest : String} {d : StructDef} {field : Field}
    {crossed : List (Namespace × Field)} {target : Namespace × Field}
    (found : table.lookup? type ns = some (owner, .type (.struct d)))
    (onward : (View.headOf path).2 = some rest)
    (first : d.fields.find? (·.name = (View.headOf path).1) = some field)
    (further : Reaches table owner field.type rest crossed target) :
    Reaches table ns type path ((owner, field) :: crossed) target
  /-- A scalar typedef has the fields of its target. -/
  | renamed {ns owner : Namespace} {type path : String} {d : Typedef}
    {crossed : List (Namespace × Field)} {target : Namespace × Field}
    (found : table.lookup? type ns = some (owner, .type (.typedef d)))
    (scalar : d.dim = .scalar) (further : Reaches table owner d.type path crossed target) :
    Reaches table ns type path crossed target

/-- Only enums may have the name of a type of the language itself. -/
def ScopeTable.Unshadowed (table : ScopeTable) : Prop :=
  ∀ (ns : Namespace) (name : String) (type : TypeDef),
    Entries.get? (ns, name) table.symbols = some (.type type) →
    builtinSize? name = none ∨ ∃ d, type = .enum d

/-- A name that leads to a struct or a typedef is not that of a type of the language itself. -/
theorem ScopeTable.Unshadowed.builtinSize? {table : ScopeTable} (plain : table.Unshadowed)
    {ns owner : Namespace} {name : String} {type : TypeDef}
    (found : table.lookup? name ns = some (owner, .type type)) (noEnum : ∀ d, type ≠ .enum d) :
    CrossAsm.builtinSize? name = none := by
  -- Only an enumeration may hide a type of the language.
  rcases plain _ _ _ (ScopeTable.get?_of_lookup? found) with other | ⟨d, enum⟩
  · exact other
  · exact absurd enum (noEnum d)

/-! ### Fields behind each other -/

/-- Where the first field of its name begins: behind those before it. -/
inductive Begins (size : Field → Except Error (Option Nat)) : List Field → Field → Nat → Prop
  /-- The first field of all. -/
  | here {field : Field} {others : List Field} : Begins size (field :: others) field 0
  /-- A field behind one of another name. -/
  | behind {first field : Field} {others : List Field} {width base : Nat}
    (different : first.name ≠ field.name) (sized : size first = .ok (some width))
    (further : Begins size others field base) : Begins size (first :: others) field (width + base)

/-- The number of bytes of fields one after another, however many they are. -/
inductive Sums (size : Field → Except Error (Option Nat)) : List Field → Nat → Prop
  /-- There are none. -/
  | none : Sums size [] 0
  /-- A field and those behind it. -/
  | more {field : Field} {others : List Field} {width behind : Nat}
    (sized : size field = .ok (some width)) (further : Sums size others behind) :
    Sums size (field :: others) (width + behind)

section Fields

variable {size inside : Field → Except Error (Option Nat)} {missing : Error} {head : String}
  {fields : List Field} {field other : Field} {n o base base' width width' : Nat}

/-- The size of a field and of those behind it. -/
theorem sumSizes_cons (known : View.sumSizes size (field :: fields) = .ok (some n)) :
    ∃ k l, size field = .ok (some k) ∧ View.sumSizes size fields = .ok (some l) ∧
      n = Word.add k l := by
  -- A sum is known only where the field and those behind it are.
  rw [View.sumSizes, except_bind_eq_ok] at known
  obtain ⟨_ | width, sized, known⟩ := known
  · cases known
  · simp only [except_bind_eq_ok, except_pure_eq_ok, Option.map_eq_some_iff] at known
    obtain ⟨_, rest, m, rfl, rfl⟩ := known
    exact ⟨width, m, sized, rest, rfl⟩

/-- The offset of a member is where the first field of its name begins, and what it is inside, unless
that is too large for a word. -/
theorem memberOffset_begins
    (known : View.memberOffset size inside missing head fields = .ok (some o)) :
    ∃ field base within, fields.find? (·.name = head) = some field ∧ Begins size fields field base ∧
      inside field = .ok (some within) ∧ (base + within < Word.count → o = base + within) := by
  -- Field by field, up to the first one of the name.
  induction fields generalizing o with
  | nil => cases known
  | cons field others ih =>
    rw [View.memberOffset] at known
    by_cases named : field.name = head
    · rw [if_pos named] at known
      exact ⟨field, 0, o, by simp [named], .here, known, fun _ => (Nat.zero_add o).symm⟩
    · rw [if_neg named, except_bind_eq_ok] at known
      obtain ⟨_ | width, sized, known⟩ := known
      · cases known
      · simp only [except_bind_eq_ok, except_pure_eq_ok, Option.map_eq_some_iff] at known
        obtain ⟨_, rest, m, rfl, rfl⟩ := known
        obtain ⟨target, base, within, first, begins, there, exact_⟩ := ih rest
        have called : target.name = head := by simpa using List.find?_some first
        refine ⟨target, width + base, within, by simpa [named] using first,
          .behind (called ▸ named) sized begins, there, fun small => ?_⟩
        rw [exact_ (by omega), Word.add_of_lt (by omega), Nat.add_assoc]

/-- A field ends before all fields end. -/
theorem Begins.le_sum (begins : Begins size fields field base) (sums : Sums size fields n) :
    ∃ width, size field = .ok (some width) ∧ base + width ≤ n := by
  -- By induction on the fields before it, whose sizes both sides add up.
  induction begins generalizing n with
  | here =>
    cases sums with
    | more sized => exact ⟨_, sized, by omega⟩
  | behind different sized further ih =>
    cases sums with
    | more first rest =>
      cases sized.symm.trans first
      obtain ⟨width, last, ends⟩ := ih rest
      exact ⟨width, last, by omega⟩

/-- A field begins at one place. -/
theorem Begins.unique (begins : Begins size fields field base)
    (begins' : Begins size fields field base') : base = base' := by
  -- The sizes of the fields before it are the same both times.
  induction begins generalizing base' with
  | here =>
    cases begins' with
    | here => rfl
    | behind different => exact absurd rfl different
  | behind different sized further ih =>
    cases begins' with
    | here => exact absurd rfl different
    | behind _ sized' further' =>
      cases sized.symm.trans sized'
      rw [ih further']

/-- Of two fields the one that comes first ends before the other begins. -/
theorem Begins.apart (begins : Begins size fields field base)
    (begins' : Begins size fields other base') (sized : size field = .ok (some width))
    (sized' : size other = .ok (some width')) (different : field.name ≠ other.name) :
    base + width ≤ base' ∨ base' + width' ≤ base := by
  -- Field by field, until one of the two comes up: the other one lies behind all of it.
  induction begins generalizing base' with
  | here =>
    cases begins' with
    | here => exact absurd rfl different
    | behind _ first =>
      cases sized.symm.trans first
      exact .inl (by omega)
  | behind _ first further ih =>
    cases begins' with
    | here =>
      cases sized'.symm.trans first
      exact .inr (by omega)
    | behind _ first' further' =>
      cases first.symm.trans first'
      have rest := ih further' sized different
      omega

end Fields

/-! ### The same answers while fewer definitions are followed -/

namespace View

/-- The number of elements of a dimension; none while its length is not known. -/
def lengthOf (view : View) (dim : Dim) : Except Error (Option Nat) :=
  view.countWith view.bind dim none

/-- The size of a field in bytes; none while a length in it is not known. -/
def sizeOfField (view : View) (field : Field) : Except Error (Option Nat) := do
  let size ← view.sizeOfType field.type
  let count ← view.lengthOf field.dim
  return product size count

/-- Views onto one table from one namespace, of which the second follows fewer definitions. -/
structure Fewer (a b : View) : Prop extends a.Beside b where
  /-- What the second follows the first follows as well. -/
  trail : b.trail ⊆ a.trail

/-- Answers that are known at the second as soon as at the first. -/
theorem coherent_known :
    Coherent fun α x y => ∀ answer : α, x = .ok answer → y = .ok answer := by
  -- Where the first question has an answer, so has the second, and the rest goes on from there.
  refine ⟨fun _ _ same => same, fun _ => nofun, ?_⟩
  intro α β x y f g first rest b known
  obtain ⟨a, left, right⟩ := except_bind_eq_ok.1 known
  exact except_bind_eq_ok.2 ⟨a, first a left, rest a b right⟩

variable {a b a' b' : View} {m n : Nat} {q : Question}

/-- Views that follow fewer definitions enter what is entered by those that follow more. -/
theorem Fewer.entered (fewer : a.Fewer b) (ns : Namespace) (name : String) :
    Entered (fun α x y => ∀ answer : α, x = .ok answer → y = .ok answer) a b ns name := by
  -- What the longer trail has on it keeps it from being entered; the shorter one has no more.
  unfold Entered enter
  by_cases followed : a.trail.contains (ns.qualify name) = true
  · rw [if_pos followed]
    intro α k answer known
    cases known
  · rw [if_neg followed]
    have fresh : ¬ b.trail.contains (ns.qualify name) = true := by
      simp only [List.contains_eq_mem, decide_eq_true_eq] at followed ⊢
      exact fun inside => followed (fewer.trail inside)
    exact ⟨_, if_neg fresh⟩

/-- They still do behind a move. -/
theorem Fewer.go (fewer : a.Fewer b) {move : Move} (left : a.go move = .ok a')
    (right : b.go move = .ok b') : a'.Fewer b' := by
  -- Entering a definition puts the same name on both trails.
  refine ⟨fewer.toBeside.go left right, ?_⟩
  cases move with
  | across ns =>
    cases left
    cases right
    exact fewer.trail
  | into ns name =>
    simp only [View.go, enter] at left right
    split at left
    · cases left
    · split at right
      · cases right
      · cases left
        cases right
        exact List.append_subset.2 ⟨List.subset_append_of_subset_left _ fewer.trail,
          List.subset_append_right _ _⟩

/-- An answer is the same while fewer definitions are followed, and more may be. -/
theorem Fewer.ask (fewer : a.Fewer b) (more : m ≤ n) {answer : Option q.Answer}
    (known : a.ask m q = .ok answer) : b.ask n q = .ok answer := by
  -- By induction on the number; what is entered from the first view is entered from the second.
  induction m generalizing n a b q with
  | zero =>
    rw [ask_zero] at known
    cases known
  | succ m ih =>
    obtain _ | n := n
    · omega
    exact coherent_known.ask_succ fewer.toBeside
      (fun _ _ _ a' b' left right answer known => ih (fewer.go left right) (by omega) known)
      (fun owner symbol _ => fewer.entered owner symbol.name) answer known

variable {type path : String} {dim : Dim} {field : Field} {size : Option Nat}

/-- The size of a type that is known is its size. -/
theorem Fewer.sizeOfType (fewer : a.Fewer b) (known : typeSize m a type = .ok size) :
    b.sizeOfType type = .ok size := by
  -- The question is asked with enough definitions to be followed in both views.
  rw [← sizeOfType_enough (Nat.le_max_right m _)]
  exact fewer.ask (q := .typeSize type) (Nat.le_max_left m _) known

/-- The offset of a member that is known is its offset. -/
theorem Fewer.offsetOf (fewer : a.Fewer b) (known : fieldOffset m a type path = .ok size) :
    b.offsetOf type path = .ok size := by
  -- The question is asked with enough definitions to be followed in both views.
  rw [← offsetOf_enough (Nat.le_max_right m _)]
  exact fewer.ask (q := .fieldOffset type path) (Nat.le_max_left m _) known

/-- The length of a dimension that is known is its length. -/
theorem Fewer.lengthOf (fewer : a.Fewer b)
    (known : a.countWith (a.bindWith (name m a) (sizeof m a)) dim none = .ok size) :
    b.lengthOf dim = .ok size := by
  -- The length may be counted with any number of definitions that is enough for both.
  cases dim with
  | scalar => exact known
  | unsized => cases known
  | sized length =>
    have counted := coherent_known.countWith (n := max m (b.fuel length.weight)) fewer.toBeside
      none (fun q _ _ answered => fewer.ask (Nat.le_max_left m _) answered) _ known
    rw [View.lengthOf, countWith, ← bind_enough (Nat.le_max_right m _)]
    exact counted

/-- The size of a field that is known is its size. -/
theorem Fewer.sizeOfField (fewer : a.Fewer b)
    (known : arraySize m a field.type field.dim none = .ok size) :
    b.sizeOfField field = .ok size := by
  -- A field is as large as its type and its length say, both of which are known.
  simp only [arraySize, except_bind_eq_ok, except_pure_eq_ok] at known
  obtain ⟨first, sized, count, counted, rfl⟩ := known
  rw [View.sizeOfField, fewer.sizeOfType sized, fewer.lengthOf counted]
  rfl

/-- A definition that is entered follows more. -/
theorem Fewer.inside (fewer : a.Fewer b) {inner : View} {ns : Namespace} {name : String}
    (entered : a.enter ns name = .ok inner) : inner.Fewer (b.moved ns) := by
  -- The trail of the view inside is the one outside and a name.
  simp only [enter] at entered
  split at entered
  · cases entered
  · cases entered
    exact ⟨⟨fewer.scopes, rfl, fewer.pos⟩, List.subset_append_of_subset_left _ fewer.trail⟩

/-- Every view follows what it follows. -/
theorem Fewer.refl (view : View) : view.Fewer view :=
  ⟨.refl view, List.Subset.refl _⟩

/-! ### The number of bytes of a type -/

/-- What takes up bytes: a type, or fields one after another. -/
inductive Extent
  | type (name : String)
  | fields (fields : List Field)

/-- The number of bytes that something takes up as seen from a namespace, however many they are. -/
inductive Spans (view : View) : Namespace → Extent → Nat → Prop
  /-- A type of the language itself. -/
  | builtin {ns : Namespace} {type : String} {n : Nat} (known : builtinSize? type = some n) :
    Spans view ns (.type type) n
  /-- An enum takes a byte. -/
  | enum {ns owner : Namespace} {type : String} {d : EnumDef} (other : builtinSize? type = none)
    (found : view.scopes.lookup? type ns = some (owner, .type (.enum d))) :
    Spans view ns (.type type) 1
  /-- A struct takes what its fields take. -/
  | struct {ns owner : Namespace} {type : String} {d : StructDef} {n : Nat}
    (other : builtinSize? type = none)
    (found : view.scopes.lookup? type ns = some (owner, .type (.struct d)))
    (parts : Spans view owner (.fields d.fields) n) : Spans view ns (.type type) n
  /-- A typedef takes what its elements take. -/
  | typedef {ns owner : Namespace} {type : String} {d : Typedef} {n count : Nat}
    (other : builtinSize? type = none)
    (found : view.scopes.lookup? type ns = some (owner, .type (.typedef d)))
    (element : Spans view owner (.type d.type) n)
    (counted : (view.moved owner).lengthOf d.dim = .ok (some count)) :
    Spans view ns (.type type) (n * count)
  /-- No fields take nothing. -/
  | none {ns : Namespace} : Spans view ns (.fields []) 0
  /-- A field takes what its elements take, before those behind it. -/
  | more {ns : Namespace} {field : Field} {others : List Field} {n count behind : Nat}
    (element : Spans view ns (.type field.type) n)
    (counted : (view.moved ns).lengthOf field.dim = .ok (some count))
    (further : Spans view ns (.fields others) behind) :
    Spans view ns (.fields (field :: others)) (n * count + behind)

section Spanning

variable {view : View} {ns owner : Namespace} {fields : List Field} {n k whole width count : Nat}

/-- There is one such number. -/
theorem Spans.unique {extent : Extent} (one : view.Spans ns extent n)
    (two : view.Spans ns extent k) : n = k := by
  -- By induction on the first; a name leads to one definition, and a length is one number.
  induction one generalizing k with
  | builtin known =>
    -- A built-in type has no definition that could be found.
    cases two with
    | builtin known' => exact Option.some.inj (known.symm.trans known')
    | enum other | struct other | typedef other => cases known.symm.trans other
  | enum other found =>
    cases two with
    | builtin known => cases other.symm.trans known
    | enum => rfl
    | struct _ found' | typedef _ found' => cases found.symm.trans found'
  | struct other found parts ih =>
    -- The struct is the same one, and so are its fields.
    cases two with
    | builtin known => cases other.symm.trans known
    | enum _ found' | typedef _ found' => cases found.symm.trans found'
    | struct _ found' parts' =>
      cases found.symm.trans found'
      exact ih parts'
  | typedef other found element counted ih =>
    -- The typedef is the same one, with the same element and count.
    cases two with
    | builtin known => cases other.symm.trans known
    | enum _ found' | struct _ found' => cases found.symm.trans found'
    | typedef _ found' element' counted' =>
      cases found.symm.trans found'
      cases counted.symm.trans counted'
      rw [ih element']
  | none =>
    cases two
    rfl
  | more element counted further ih ih' =>
    -- Field by field.
    cases two with
    | more element' counted' further' =>
      cases counted.symm.trans counted'
      rw [ih element', ih' further']

/-- Each of the fields takes a part of it. -/
theorem Spans.part (spans : view.Spans ns (.fields fields) whole) (among : field ∈ fields) :
    ∃ n count, view.Spans ns (.type field.type) n ∧
      (view.moved ns).lengthOf field.dim = .ok (some count) ∧ n * count ≤ whole := by
  -- By induction on the fields: what the fields behind take comes on top.
  induction fields generalizing whole with
  | nil => cases among
  | cons first others ih =>
    cases spans with
    | more element counted further =>
      rcases List.mem_cons.1 among with rfl | later
      · exact ⟨_, _, element, counted, Nat.le_add_right _ _⟩
      · obtain ⟨n, count, element, counted, below⟩ := ih further later
        exact ⟨n, count, element, counted, Nat.le_trans below (Nat.le_add_left _ _)⟩

/-- A field has its size from that of its type and its length. -/
theorem exists_of_sizeOfField (known : view.sizeOfField field = .ok (some width)) :
    ∃ size count, view.sizeOfType field.type = .ok (some size) ∧
      view.lengthOf field.dim = .ok (some count) ∧ width = Word.mul size count := by
  -- A product is known only where both factors are.
  simp only [View.sizeOfField, except_bind_eq_ok, except_pure_eq_ok] at known
  obtain ⟨size, sized, count, counted, product⟩ := known
  cases size with
  | none => cases product
  | some size =>
    cases count with
    | none => cases product
    | some count =>
      cases product
      exact ⟨size, count, sized, counted, rfl⟩

/-- The size of an array that is found while definitions are followed comes of that of its element. -/
theorem exists_spans_array {inner : View} {dim : Dim} {m : Nat}
    (elements : ∀ n, typeSize m inner type = .ok (some n) →
      ∃ whole, view.Spans owner (.type type) whole ∧ n = whole % Word.count)
    (fewer : inner.Fewer (view.moved owner))
    (known : arraySize m inner type dim none = .ok (some width)) :
    ∃ n count, view.Spans owner (.type type) n ∧
      (view.moved owner).lengthOf dim = .ok (some count) ∧ width = n * count % Word.count := by
  -- What is exact here wraps around there: the size is the remainder of the span.
  simp only [arraySize, except_bind_eq_ok, except_pure_eq_ok] at known
  obtain ⟨size, sized, count, counted, product⟩ := known
  -- Both the element and the length are known, since the product is.
  cases size with
  | none => cases product
  | some size =>
    cases count with
    | none => cases product
    | some count =>
      obtain ⟨n, element, rfl⟩ := elements size sized
      cases product
      exact ⟨n, count, element, fewer.lengthOf counted, Nat.mod_mul_mod ..⟩

/-- So does the size of fields. -/
theorem exists_spans_fields {inner : View} {m : Nat}
    (elements : ∀ type n, typeSize m inner type = .ok (some n) →
      ∃ whole, view.Spans owner (.type type) whole ∧ n = whole % Word.count)
    (fewer : inner.Fewer (view.moved owner))
    (known : sumSizes (fun field => arraySize m inner field.type field.dim none) fields =
      .ok (some n)) :
    ∃ whole, view.Spans owner (.fields fields) whole ∧ n = whole % Word.count := by
  -- Field by field, and the remainders of the spans add up to that of their sum.
  induction fields generalizing n with
  | nil =>
    cases known
    exact ⟨0, .none, rfl⟩
  | cons field others ih =>
    obtain ⟨width, m, sized, rest, rfl⟩ := sumSizes_cons known
    obtain ⟨size, count, element, counted, rfl⟩ :=
      exists_spans_array (elements field.type) fewer sized
    obtain ⟨behind, further, rfl⟩ := ih rest
    exact ⟨size * count + behind, .more element counted further, (Nat.add_mod ..).symm⟩

/-- A size that is found while definitions are followed is the number of bytes, if that is a word. -/
theorem exists_spans {a : View} {m : Nat} (fewer : a.Fewer (view.moved ns))
    (known : typeSize m a type = .ok (some n)) :
    ∃ whole, view.Spans ns (.type type) whole ∧ n = whole % Word.count := by
  -- By induction on the definitions that are followed.
  induction m generalizing a ns type n with
  | zero => cases known
  | succ m ih =>
    have seen : a.lookup? type = view.scopes.lookup? type ns := (fewer.lookup? type).symm
    rw [typeSize_succ, seen] at known
    -- A built-in size is the number of bytes.
    cases other : builtinSize? type with
    | some size =>
      simp only [other, Except.ok.injEq, Option.some.injEq] at known
      subst known
      exact ⟨size, .builtin other, (Nat.mod_eq_of_lt (builtinSize?_lt other)).symm⟩
    | none =>
      simp only [other] at known
      -- Only a struct, a typedef or an enumeration has a size.
      rcases found : view.scopes.lookup? type ns with
        _ | ⟨owner, var | func | label | (d | d | d)⟩ <;> simp only [found] at known
      · cases known
      · cases known
      · cases known
      · cases known
      · -- A struct is summed up, seen from inside.
        obtain ⟨inner, entered, summed⟩ := except_bind_eq_ok.1 known
        have inside := fewer.inside entered
        obtain ⟨whole, parts, rest⟩ := exists_spans_fields (fun _ _ => ih inside) inside summed
        exact ⟨whole, .struct other found parts, rest⟩
      · -- A typedef is an array, seen from inside.
        obtain ⟨inner, entered, sized⟩ := except_bind_eq_ok.1 known
        have inside := fewer.inside entered
        obtain ⟨size, count, element, counted, rest⟩ :=
          exists_spans_array (fun _ => ih inside) inside sized
        exact ⟨size * count, .typedef other found element counted, rest⟩
      · cases known
        exact ⟨1, .enum other found, rfl⟩

/-- The size of a type is the number of its bytes, if that is a word. -/
theorem Spans.sizeOfType (spans : view.Spans ns (.type type) whole)
    (known : (view.moved ns).sizeOfType type = .ok (some n)) : n = whole % Word.count := by
  -- There is only one span, and the answer is what it leaves modulo the words.
  obtain ⟨whole', spans', rest⟩ := exists_spans (.refl (view.moved ns)) known
  rw [spans.unique spans']
  exact rest

/-- The sizes of fields that take up fewer bytes than there are words are exact. -/
theorem Spans.sums (spans : view.Spans ns (.fields fields) whole) (small : whole < Word.count)
    (known : sumSizes (view.moved ns).sizeOfField fields = .ok (some n)) :
    Sums (view.moved ns).sizeOfField fields whole := by
  -- By induction on the fields, each of which takes a part of the bytes.
  induction fields generalizing whole n with
  | nil =>
    cases spans
    exact .none
  | cons field others ih =>
    cases spans with
    | @more _ _ _ size count behind element counted further =>
      obtain ⟨width, m, sized, rest, rfl⟩ := sumSizes_cons known
      obtain ⟨_, _, typed, counted', rfl⟩ := exists_of_sizeOfField sized
      cases counted.symm.trans counted'
      obtain rfl := element.sizeOfType typed
      have exactly : Word.mul (size % Word.count) count = size * count := by
        rw [Word.mul, Nat.mod_mul_mod, Nat.mod_eq_of_lt (by omega)]
      exact .more (exactly ▸ sized) (ih further (by omega) rest)

end Spanning

/-! ### Sizes and offsets of structs and typedefs -/

section Definitions

variable {view : View} {ns owner : Namespace} {n o : Nat}

/-- A struct is as large as its fields. -/
theorem sizeOfType_struct {d : StructDef} (other : builtinSize? type = none)
    (found : view.scopes.lookup? type ns = some (owner, .type (.struct d)))
    (known : (view.moved ns).sizeOfType type = .ok (some n)) :
    sumSizes (view.moved owner).sizeOfField d.fields = .ok (some n) := by
  -- With one more definition to follow the size is the same, and then it is that of the fields.
  have seen : (view.moved ns).lookup? type = _ := found
  rw [← sizeOfType_enough (Nat.le_succ _), typeSize_succ, other, seen] at known
  obtain ⟨inner, entered, summed⟩ := except_bind_eq_ok.1 known
  -- The sizes were asked for inside the struct; they are the same where it is not being followed.
  exact coherent_known.sumSizes
    (fun field _ _ sized => ((Fewer.refl (view.moved ns)).inside entered).sizeOfField sized) _ summed

/-- The target of a scalar typedef of known size has one as well. -/
theorem sizeOfType_typedef {d : Typedef} (other : builtinSize? type = none)
    (found : view.scopes.lookup? type ns = some (owner, .type (.typedef d))) (scalar : d.dim = .scalar)
    (known : (view.moved ns).sizeOfType type = .ok (some n)) :
    ∃ size, (view.moved owner).sizeOfType d.type = .ok (some size) := by
  -- The size of a typedef is that of an array of one element.
  have seen : (view.moved ns).lookup? type = _ := found
  rw [← sizeOfType_enough (Nat.le_succ _), typeSize_succ, other, seen] at known
  simp only [scalar, arraySize, countWith, except_bind_eq_ok, except_pure_eq_ok,
    Except.ok.injEq] at known
  obtain ⟨inner, entered, size, sized, _, rfl, product⟩ := known
  cases size with
  | none => cases product
  | some size => exact ⟨size, ((Fewer.refl (view.moved ns)).inside entered).sizeOfType sized⟩

/-- A member of a struct lies in a field of it. -/
theorem offsetOf_struct {d : StructDef}
    (found : view.scopes.lookup? type ns = some (owner, .type (.struct d)))
    (known : (view.moved ns).offsetOf type path = .ok (some o)) :
    ∃ field base within, d.fields.find? (·.name = (headOf path).1) = some field ∧
      Begins (view.moved owner).sizeOfField d.fields field base ∧
      (base + within < Word.count → o = base + within) ∧
      ((headOf path).2 = none → within = 0) ∧
      ∀ rest, (headOf path).2 = some rest →
        (view.moved owner).offsetOf field.type rest = .ok (some within) := by
  -- The offset is the base of the field that comes first and what lies before the member in it.
  have seen : (view.moved ns).lookup? type = _ := found
  rw [← offsetOf_enough (Nat.le_succ _), fieldOffset_succ, seen] at known
  have fewer := Fewer.refl (view.moved owner)
  have missing : (Error.noSuchMember view.pos type path).Found := .noSuchMember
  have placed := coherent_known.memberOffset missing
    (fun field _ _ sized => fewer.sizeOfField sized) (fun field _ => fun _ => id) _ known
  obtain ⟨field, base, within, first, begins, there, place⟩ := memberOffset_begins placed
  refine ⟨field, base, within, first, begins, place, fun whole => ?_, fun rest onward => ?_⟩
  · simp only [whole] at there
    cases there
    rfl
  · simp only [onward] at there
    exact fewer.offsetOf there

/-- A member of a scalar typedef is one of its target. -/
theorem offsetOf_typedef {d : Typedef}
    (found : view.scopes.lookup? type ns = some (owner, .type (.typedef d)))
    (known : (view.moved ns).offsetOf type path = .ok (some o)) :
    d.dim = .scalar ∧ (view.moved owner).offsetOf d.type path = .ok (some o) := by
  -- An array has no members, so one that is found lies in a scalar.
  have seen : (view.moved ns).lookup? type = _ := found
  rw [← offsetOf_enough (Nat.le_succ _), fieldOffset_succ, seen] at known
  by_cases scalar : d.dim = .scalar
  · simp only [if_pos scalar, except_bind_eq_ok] at known
    obtain ⟨inner, entered, there⟩ := known
    exact ⟨scalar, ((Fewer.refl (view.moved ns)).inside entered).offsetOf there⟩
  · simp only [if_neg scalar] at known
    cases known

end Definitions

/-! ### Members inside their types -/

/-- A path leads from a type to a field that lies at an offset inside it and has a size, and no array
that is crossed on the way is empty. -/
structure Member (view : View) (type path : String) (crossed : List (Namespace × Field))
    (target : Namespace × Field) (offset size : Nat) : Prop where
  /-- The path ends at the field. -/
  reaches : view.scopes.Reaches view.ns type path crossed target
  /-- The field lies at the offset. -/
  offset : view.offsetOf type path = .ok (some offset)
  /-- The field has the size. -/
  size : (view.moved target.1).sizeOfField target.2 = .ok (some size)
  /-- Every array that is crossed has an element. -/
  crosses : ∀ passed ∈ crossed, (view.moved passed.1).lengthOf passed.2.dim ≠ .ok (some 0)

section Inside

variable {view : View} {ns : Namespace} {crossed : List (Namespace × Field)}
  {target : Namespace × Field} {owner : Namespace} {n o s whole width : Nat}

/-- A type whose size is the number of its bytes, which is a word. -/
structure Compact (view : View) (ns : Namespace) (type : String) (whole : Nat) : Prop where
  /-- The type has the size. -/
  sized : (view.moved ns).sizeOfType type = .ok (some whole)
  /-- It takes up as many bytes. -/
  spans : view.Spans ns (.type type) whole
  /-- The number is a word. -/
  small : whole < Word.count

/-- A type of known size has this one if it takes up fewer bytes than there are words. -/
theorem Spans.compact (spans : view.Spans ns (.type type) whole) (small : whole < Word.count)
    (known : (view.moved ns).sizeOfType type = .ok (some n)) : view.Compact ns type whole := by
  -- Below the number of the words nothing is taken off.
  obtain rfl := spans.sizeOfType known
  rw [Nat.mod_eq_of_lt small] at known
  exact ⟨known, spans, small⟩

/-- The fields of such a struct take up its bytes. -/
theorem Compact.parts {d : StructDef} (plain : view.scopes.Unshadowed)
    (compact : view.Compact ns type whole)
    (found : view.scopes.lookup? type ns = some (owner, .type (.struct d))) :
    view.Spans owner (.fields d.fields) whole ∧
      Sums (view.moved owner).sizeOfField d.fields whole := by
  -- The span of a struct is that of its fields, and below the limit spans are sizes.
  have other := plain.builtinSize? found nofun
  obtain ⟨sized, spans, small⟩ := compact
  cases spans with
  | builtin known => cases other.symm.trans known
  | enum _ found' | typedef _ found' => cases found.symm.trans found'
  | struct _ found' parts =>
    cases found.symm.trans found'
    exact ⟨parts, parts.sums small (sizeOfType_struct other found sized)⟩

/-- The type of a field that is not empty is such a type as well, and not larger than the field. -/
theorem Compact.element {d : StructDef} (plain : view.scopes.Unshadowed)
    (compact : view.Compact ns type whole)
    (found : view.scopes.lookup? type ns = some (owner, .type (.struct d)))
    (among : field ∈ d.fields) (wide : (view.moved owner).sizeOfField field = .ok (some width))
    (filled : (view.moved owner).lengthOf field.dim ≠ .ok (some 0)) :
    ∃ size, view.Compact owner field.type size ∧ size ≤ width := by
  -- A field that holds an element is at least as large as one, and so is what wraps around nowhere.
  have small := compact.small
  obtain ⟨n, count, element, counted, below⟩ := (compact.parts plain found).1.part among
  obtain ⟨size, _, sized, counted', rfl⟩ := exists_of_sizeOfField wide
  cases counted.symm.trans counted'
  have positive : 0 < count := by
    refine Nat.pos_of_ne_zero ?_
    rintro rfl
    exact filled counted
  -- One element takes up no more than all of them.
  have one : n ≤ n * count := Nat.le_mul_of_pos_right n positive
  have typed := element.compact (by omega) sized
  cases typed.sized.symm.trans sized
  rw [Word.mul_of_lt (by omega)]
  exact ⟨n, typed, one⟩

/-- The target of such a typedef is such a type as well. -/
theorem Compact.renamed {d : Typedef} (plain : view.scopes.Unshadowed)
    (compact : view.Compact ns type whole)
    (found : view.scopes.lookup? type ns = some (owner, .type (.typedef d)))
    (scalar : d.dim = .scalar) : view.Compact owner d.type whole := by
  -- A scalar typedef spans one element of its target.
  have other := plain.builtinSize? found nofun
  obtain ⟨sized, spans, small⟩ := compact
  obtain ⟨size, known⟩ := sizeOfType_typedef other found scalar sized
  cases spans with
  | builtin known => cases other.symm.trans known
  | enum _ found' | struct _ found' => cases found.symm.trans found'
  | typedef _ found' element counted =>
    cases found.symm.trans found'
    rw [scalar] at counted
    cases counted
    rw [Nat.mul_one] at small ⊢
    exact element.compact small known

variable {rest : String}

/-- What follows the first dot of a path is the path of a member of the field before it. -/
theorem Member.inner {d : StructDef} (plain : view.scopes.Unshadowed)
    (compact : view.Compact ns type whole)
    (found : view.scopes.lookup? type ns = some (owner, .type (.struct d)))
    (onward : (headOf path).2 = some rest)
    (first : d.fields.find? (·.name = (headOf path).1) = some field)
    (further : view.scopes.Reaches owner field.type rest crossed target)
    (member : (view.moved ns).Member type path ((owner, field) :: crossed) target o s) :
    ∃ base width size within, Begins (view.moved owner).sizeOfField d.fields field base ∧
      (view.moved owner).sizeOfField field = .ok (some width) ∧ base + width ≤ whole ∧
      view.Compact owner field.type size ∧ size ≤ width ∧
      (view.moved owner).Member field.type rest crossed target within s ∧
      (base + within < Word.count → o = base + within) := by
  -- The first part of the path finds the field, and the rest of it lies inside.
  obtain ⟨_, base, within, same, begins, place, -, deep⟩ := offsetOf_struct found member.offset
  cases first.symm.trans same
  obtain ⟨width, wide, ends⟩ := begins.le_sum (compact.parts plain found).2
  obtain ⟨size, typed, enough⟩ := compact.element plain found (List.mem_of_find?_eq_some first)
    wide (member.crosses _ List.mem_cons_self)
  exact ⟨base, width, size, within, begins, wide, ends, typed, enough,
    ⟨further, deep rest onward, member.size,
      fun passed later => member.crosses passed (List.mem_cons_of_mem _ later)⟩, place⟩

/-- A field of a struct lies where it begins. -/
theorem Member.flat {d : StructDef} (plain : view.scopes.Unshadowed)
    (compact : view.Compact ns type whole)
    (found : view.scopes.lookup? type ns = some (owner, .type (.struct d)))
    (last : (headOf path).2 = none)
    (first : d.fields.find? (·.name = (headOf path).1) = some field)
    (member : (view.moved ns).Member type path [] (owner, field) o s) :
    Begins (view.moved owner).sizeOfField d.fields field o ∧ o + s ≤ whole := by
  -- Nothing follows in the path, so the member is the whole field.
  obtain ⟨_, base, within, same, begins, place, flat, -⟩ := offsetOf_struct found member.offset
  cases first.symm.trans same
  obtain rfl := flat last
  obtain ⟨width, wide, ends⟩ := begins.le_sum (compact.parts plain found).2
  cases wide.symm.trans member.size
  have small := compact.small
  obtain rfl := place (by omega)
  exact ⟨begins, ends⟩

/-- A member of a type ends before the type does. -/
theorem Member.within (plain : view.scopes.Unshadowed) (compact : view.Compact ns type whole)
    (member : (view.moved ns).Member type path crossed target o s) : o + s ≤ whole := by
  have reaches : view.scopes.Reaches ns type path crossed target := member.reaches
  -- By induction on the path: a field ends before its struct, and what lies in it before the field.
  induction reaches generalizing o whole with
  | last found last first => exact (member.flat plain compact found last first).2
  | inside found onward first further ih =>
    obtain ⟨base, width, size, within, -, -, ends, typed, enough, inner, place⟩ :=
      member.inner plain compact found onward first further
    have inside : within + s ≤ size := ih typed inner
    have small := compact.small
    obtain rfl := place (by omega)
    omega
  | renamed found scalar further ih =>
    exact ih (compact.renamed plain found scalar)
      ⟨further, (offsetOf_typedef found member.offset).2, member.size, member.crosses⟩

/-- A member of a struct lies in the field that its path begins with. -/
theorem Member.span {d : StructDef} (plain : view.scopes.Unshadowed)
    (compact : view.Compact ns type whole)
    (member : (view.moved ns).Member type path crossed target o s)
    (found : view.scopes.lookup? type ns = some (owner, .type (.struct d))) :
    ∃ field base width, field.name = (headOf path).1 ∧
      Begins (view.moved owner).sizeOfField d.fields field base ∧
      (view.moved owner).sizeOfField field = .ok (some width) ∧ base ≤ o ∧
      o + s ≤ base + width := by
  -- The path ends with the field, or goes on inside it, where the field encloses what follows.
  have reaches : view.scopes.Reaches ns type path crossed target := member.reaches
  cases reaches with
  | @last _ _ _ _ _ field found' last first =>
    cases found.symm.trans found'
    have named : field.name = (headOf path).1 := by simpa using List.find?_some first
    have begins := (member.flat plain compact found last first).1
    exact ⟨field, o, s, named, begins, member.size, Nat.le_refl _, Nat.le_refl _⟩
  | @inside _ _ _ _ _ _ field _ _ found' onward first further =>
    cases found.symm.trans found'
    have named : field.name = (headOf path).1 := by simpa using List.find?_some first
    obtain ⟨base, width, size, within, begins, wide, ends, typed, enough, inner, place⟩ :=
      member.inner plain compact found onward first further
    have inside := inner.within plain typed
    have small := compact.small
    obtain rfl := place (by omega)
    exact ⟨field, base, width, named, begins, wide, Nat.le_add_right _ _, by omega⟩
  | renamed found' => cases found.symm.trans found'

variable {path' : String} {crossed' : List (Namespace × Field)} {target' : Namespace × Field}
  {o' s' : Nat}

/-- Members of a struct whose paths begin with different fields lie apart. -/
theorem Member.apart_of_head {d : StructDef} (plain : view.scopes.Unshadowed)
    (compact : view.Compact ns type whole)
    (found : view.scopes.lookup? type ns = some (owner, .type (.struct d)))
    (first : (view.moved ns).Member type path crossed target o s)
    (second : (view.moved ns).Member type path' crossed' target' o' s')
    (different : (headOf path).1 ≠ (headOf path').1) : o + s ≤ o' ∨ o' + s' ≤ o := by
  -- Different fields lie apart, and each member lies in its own.
  obtain ⟨field, base, width, named, begins, wide, low, high⟩ := first.span plain compact found
  obtain ⟨field', base', width', named', begins', wide', low', high'⟩ :=
    second.span plain compact found
  rcases begins.apart begins' wide wide' (named ▸ named' ▸ different) with before | behind
  · exact .inl (by omega)
  · exact .inr (by omega)

/-- Members of which neither path opens the other lie apart. -/
theorem Member.apart (plain : view.scopes.Unshadowed) (compact : view.Compact ns type whole)
    (first : (view.moved ns).Member type path crossed target o s)
    (second : (view.moved ns).Member type path' crossed' target' o' s')
    (noOpening : ¬ Text.Opens path path') (noOpening' : ¬ Text.Opens path' path) :
    o + s ≤ o' ∨ o' + s' ≤ o := by
  have reaches : view.scopes.Reaches ns type path crossed target := first.reaches
  -- By induction on the first path, as long as the second one goes through the same fields.
  induction reaches generalizing whole o path' crossed' o' with
  | last found last =>
    -- The path ends here, so that the other one goes to another field.
    exact first.apart_of_head plain compact found second fun same =>
      noOpening (opens_of_last last same)
  | @inside _ _ _ path _ _ _ _ _ found onward firstField further ih =>
    -- Through the same field both go on inside it; through different ones they lie apart here.
    by_cases same : (headOf path).1 = (headOf path').1
    · have onto : view.scopes.Reaches _ _ path' crossed' target' := second.reaches
      -- The second path goes through the same struct, and does not end at the field.
      cases onto with
      | last found' last' => exact absurd (opens_of_last last' same.symm) noOpening'
      | renamed found' => cases found.symm.trans found'
      | inside found' onward' secondField further' =>
        cases found.symm.trans found'
        have secondField' := secondField
        rw [← same] at secondField'
        cases firstField.symm.trans secondField'
        obtain ⟨base, _, _, within, begins, -, ends, typed, enough, inner, place⟩ :=
          first.inner plain compact found onward firstField further
        obtain ⟨_, _, _, within', begins', -, ends', typed', enough', inner', place'⟩ :=
          second.inner plain compact found onward' secondField further'
        cases begins.unique begins'
        have apart := ih typed inner inner'
          (fun opens => noOpening (opens_of_rest onward onward' same opens))
          fun opens => noOpening' (opens_of_rest onward' onward same.symm opens)
        -- Both lie in the field, and so at its place behind what they are apart in it.
        have inside := inner.within plain typed
        have inside' := inner'.within plain typed'
        have small := compact.small
        obtain rfl := place (by omega)
        obtain rfl := place' (by omega)
        omega
    · exact first.apart_of_head plain compact found second same
  | renamed found scalar further ih =>
    -- A typedef passes both on.
    have onto : view.scopes.Reaches _ _ path' crossed' target' := second.reaches
    cases onto with
    | last found' | inside found' => cases found.symm.trans found'
    | renamed found' _ further' =>
      cases found.symm.trans found'
      exact ih (compact.renamed plain found scalar)
        ⟨further, (offsetOf_typedef found first.offset).2, first.size, first.crosses⟩
        ⟨further', (offsetOf_typedef found second.offset).2, second.size, second.crosses⟩
        noOpening noOpening'

end Inside

end View

end CrossAsm
