import CrossAsm.Scope.Table
import CrossAsm.Total
import CrossAsm.Word

/-! Binding: what the names of an expression stand for, and how large types are. Sizes and offsets are
words, so that those of a type that is too large start again from zero. -/

namespace CrossAsm

/-- The point of view from which names are resolved. -/
structure View where
  /-- The symbols. -/
  scopes : ScopeTable
  /-- The namespace names are looked up from. -/
  ns : Namespace
  /-- Where errors are reported. -/
  pos : Pos
  /-- The full names of the definitions that are being followed. -/
  trail : List String := []

/-- The size of a type of the language itself. -/
def builtinSize? : String → Option Nat
  | "byte" | "char" | "bool" => some 1
  | "word" | "pointer" => some 2
  | "dword" => some 4
  | _ => none

/-- The size of a type of the language is a word. -/
theorem builtinSize?_lt {type : String} {size : Nat} (known : builtinSize? type = some size) :
    size < Word.count := by
  unfold builtinSize? at known
  split at known
  all_goals cases known
  all_goals decide

namespace View

/-- The same view from another namespace. -/
def moved (view : View) (ns : Namespace) : View :=
  { view with ns }

/-- The view from inside a definition. One that is being followed already refers back to itself. -/
def enter (view : View) (ns : Namespace) (name : String) : Except Error View :=
  let key := ns.qualify name
  if view.trail.contains key then .error (.recursiveDefinition view.pos key)
  else .ok { view with ns, trail := view.trail ++ [key] }

/-- The symbol of a name, and where it is defined. -/
def lookup? (view : View) (name : String) : Option (Namespace × Symbol) :=
  view.scopes.lookup? name view.ns

/-- Folds an expression whose names are bound. -/
def fold (view : View) : Option Expr → Except Error (Option Expr)
  | none => .ok none
  | some e =>
    match e.fold with
    | .ok e => .ok (some e)
    | .error cause => .error (.eval view.pos cause)

/-- Binds an expression, given what names and sizes stand for; none while one is unknown. -/
def bindWith (view : View) (name : String → Except Error (Option Expr))
    (sizeof : String → Except Error (Option Nat)) : Expr → Except Error (Option Expr)
  | .number value => .ok (some (.number value))
  | .ref key => .ok (some (.ref key))
  | .name path => do
    view.fold (← name path)
  | .sizeof type => do
    return (← sizeof type).map fun size => .number (Int64.ofNat size)
  | .unary op e => do
    view.fold ((← bindWith view name sizeof e).map (.unary op))
  | .binary op l r => do
    let l ← bindWith view name sizeof l
    let r ← bindWith view name sizeof r
    match l, r with
    | some l, some r => view.fold (some (.binary op l r))
    | _, _ => return none

/-- The number that a bound expression must be. -/
def number (view : View) : Option Expr → Except Error (Option Int64)
  | none => .ok none
  | some (.number value) => .ok (some value)
  | some e => .error (.notAConstant view.pos e.render)

/-- The number of elements of a declaration, given what its length is bound to. An array without a
length takes that of its initializer. -/
def countWith (view : View) (bind : Expr → Except Error (Option Expr)) (dim : Dim)
    (init : Option Initializer) : Except Error (Option Nat) :=
  match dim with
  | .scalar => .ok (some 1)
  | .sized length => do
    return (← view.number (← bind length)).map (·.toInt.toNat)
  | .unsized =>
    match init with
    | some init => .ok (some init.count)
    | none => .error (.notAConstant view.pos "[]")

/-- The product of two sizes that may be unknown. -/
def product (size count : Option Nat) : Option Nat :=
  match size, count with
  | some size, some count => some (Word.mul size count)
  | _, _ => none

/-- The size of fields one after another, none as soon as one is unknown. -/
def sumSizes (size : Field → Except Error (Option Nat)) : List Field → Except Error (Option Nat)
  | [] => .ok (some 0)
  | field :: others => do
    match ← size field with
    | none => return none
    | some first => return (← sumSizes size others).map (Word.add first)

/-- The offset of a member among fields, given the sizes of fields and the offset inside the field
that the path leads into. -/
def memberOffset (size : Field → Except Error (Option Nat))
    (inside : Field → Except Error (Option Nat)) (missing : Error) (head : String) :
    List Field → Except Error (Option Nat)
  | [] => .error missing
  | field :: others => do
    if field.name = head then
      inside field
    else
      match ← size field with
      | none => return none
      | some first =>
        return (← memberOffset size inside missing head others).map (Word.add first)

mutual

/-- What a name stands for, following at most a number of definitions. -/
def name : Nat → View → String → Except Error (Option Expr)
  | 0, view, _ => .error (.endlessDefinition view.pos)
  | fuel + 1, view, path =>
    -- A variable stands for its fixed address, or for the address that layout gives it.
    let variableAt (ns : Namespace) (var : Variable) : Except Error (Option Expr) :=
      match var.address with
      | none => .ok (some (.ref (ns.qualify var.name)))
      | some address => do
        let inner ← view.enter ns var.name
        inner.bindWith (fun path => name fuel inner path) (fun type => sizeof fuel inner type)
          address
    match view.lookup? path with
    | some (ns, symbol) =>
      match symbol with
      | .label label => .ok (some (.ref label.name))
      | .var var => variableAt ns var
      | .function func =>
        if func.decl.isInline then .error (.notAValue view.pos func.decl.name)
        else .ok (func.entry.map .ref)
      | .type type => .error (.notAValue view.pos type.name)
    | none =>
      match Text.splitHead path with
      | none => .ok none
      | some (head, member) =>
        match view.lookup? head with
        | none => .ok none
        | some (_, .type (.enum d)) =>
          match Entries.get? member d.members with
          | some value => .ok (some (.number value))
          | none => .error (.noSuchMember view.pos head member)
        | some (ns, .var var) => do
          match ← variableAt ns var with
          | none => return none
          | some base =>
            return (← fieldOffset fuel (view.moved ns) var.type member).map fun offset =>
              .binary .add base (.number (Int64.ofNat offset))
        | some (_, .function _) => name fuel (view.moved (Namespace.global.child head)) member
        | some (_, .label _) | some (_, .type (.struct _)) | some (_, .type (.typedef _)) =>
          .error (.noSuchMember view.pos head member)

/-- The size of a variable or a type, following at most a number of definitions. -/
def sizeof : Nat → View → String → Except Error (Option Nat)
  | 0, view, _ => .error (.endlessDefinition view.pos)
  | fuel + 1, view, path =>
    match view.lookup? path with
    | some (ns, .var var) => do
      let inner := view.moved ns
      let size ← typeSize fuel inner var.type
      let count ← inner.countWith
        (inner.bindWith (fun path => name fuel inner path) (fun type => sizeof fuel inner type))
        var.dim var.init
      return product size count
    | _ => typeSize fuel view path

/-- The size of a type, following at most a number of definitions; an enum takes a byte. -/
def typeSize : Nat → View → String → Except Error (Option Nat)
  | 0, view, _ => .error (.endlessDefinition view.pos)
  | fuel + 1, view, type =>
    match builtinSize? type with
    | some size => .ok (some size)
    | none =>
      -- The size of an array of a type, as seen from inside a definition.
      let arraySize (inner : View) (type : String) (dim : Dim) : Except Error (Option Nat) := do
        let size ← typeSize fuel inner type
        let count ← inner.countWith
          (inner.bindWith (fun path => name fuel inner path) (fun type => sizeof fuel inner type))
          dim none
        return product size count
      match view.lookup? type with
      | some (ns, .type (.struct d)) => do
        let inner ← view.enter ns d.name
        sumSizes (fun field => arraySize inner field.type field.dim) d.fields
      | some (ns, .type (.typedef d)) => do
        let inner ← view.enter ns d.name
        arraySize inner d.type d.dim
      | some (_, .type (.enum _)) => .ok (some 1)
      | _ => .error (.unknownType view.pos type)

/-- The offset of a dotted member inside a type, following at most a number of definitions. -/
def fieldOffset : Nat → View → String → String → Except Error (Option Nat)
  | 0, view, _, _ => .error (.endlessDefinition view.pos)
  | fuel + 1, view, type, path =>
    let missing := Error.noSuchMember view.pos type path
    match view.lookup? type with
    | some (ns, .type (.struct d)) =>
      let inner := view.moved ns
      let (head, rest) : String × Option String :=
        match Text.splitHead path with
        | some (head, rest) => (head, some rest)
        | none => (path, none)
      memberOffset
        (fun field => do
          let size ← typeSize fuel inner field.type
          let count ← inner.countWith
            (inner.bindWith (fun path => name fuel inner path)
              (fun type => sizeof fuel inner type))
            field.dim none
          return product size count)
        (fun field =>
          match rest with
          | some rest => fieldOffset fuel inner field.type rest
          | none => .ok (some 0))
        missing head d.fields
    | some (ns, .type (.typedef d)) =>
      if d.dim = .scalar then do
        let inner ← view.enter ns d.name
        fieldOffset fuel inner d.type path
      else
        .error missing
    | _ => .error missing

end

end View

/-- The number of characters in the names of an expression, and its operators and leaves. -/
def Expr.weight : Expr → Nat
  | .number _ | .ref _ => 1
  | .name path => path.length + 1
  | .sizeof type => type.length + 1
  | .unary _ e => e.weight + 1
  | .binary _ l r => l.weight + r.weight + 1

/-- The weight of a dimension. -/
def Dim.weight : Dim → Nat
  | .scalar | .unsized => 1
  | .sized length => length.weight + 1

/-- The weight of what a symbol's definition refers to. -/
def Symbol.weight : Symbol → Nat
  | .var v => v.type.length + v.dim.weight + (v.address.map Expr.weight).getD 0 + 1
  | .type (.struct d) =>
    total (d.fields.map fun field => field.type.length + field.dim.weight + 1) + 1
  | .type (.typedef d) => d.type.length + d.dim.weight + 1
  | .type (.enum _) | .function _ | .label _ => 1

/-- The weight of all definitions. -/
def ScopeTable.weight (table : ScopeTable) : Nat :=
  total (table.symbols.map fun entry => entry.2.weight + 1)

namespace View

/-- A number of definitions that is never followed without coming back to one: each question is a
name seen from a namespace, or a type and a path, under a trail of definitions that only grows. -/
def fuel (view : View) (question : Nat) : Nat :=
  let size := view.scopes.weight + question + 4
  size * size * size * size

/-- Replaces every name in an expression by what it stands for and folds the result; none while a
name is not known. -/
def bind (view : View) (e : Expr) : Except Error (Option Expr) :=
  let fuel := view.fuel e.weight
  view.bindWith (name fuel view) (sizeof fuel view) e

/-- Binds an expression that must be a number. -/
def constant (view : View) (e : Expr) : Except Error (Option Int64) := do
  view.number (← view.bind e)

/-- The size of a type in bytes; none while a length in it is not known. -/
def sizeOfType (view : View) (type : String) : Except Error (Option Nat) :=
  typeSize (view.fuel type.length) view type

/-- The size of a variable in bytes; none while a length in it is not known. -/
def sizeOfVariable (view : View) (var : Variable) : Except Error (Option Nat) := do
  let size ← view.sizeOfType var.type
  let count ← view.countWith view.bind var.dim var.init
  return product size count

/-- The offset of a dotted member inside a type; none while a length before it is not known. -/
def offsetOf (view : View) (type path : String) : Except Error (Option Nat) :=
  fieldOffset (view.fuel (type.length + path.length)) view type path

end View

end CrossAsm
