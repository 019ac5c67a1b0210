import CrossAsm.Pos
import CrossAsm.Expr
import CrossAsm.Namespace
import CrossAsm.Text.Lines
import CrossAsm.Text.Quoted

/-! Declarations: labels, variables, types and functions. -/

namespace CrossAsm

/-- A named position in the output, which layout gives an address. -/
structure Label where
  /-- The label's name. -/
  name : String
  /-- Where it is declared. -/
  pos : Pos
  deriving DecidableEq

/-- What a variable starts with. -/
inductive InitValue where
  | values (exprs : List Expr)
  | text (content : String)
  deriving DecidableEq

/-- The initializer of a variable. -/
structure Initializer where
  /-- The initial contents. -/
  value : InitValue
  /-- Where it is written. -/
  pos : Pos
  deriving DecidableEq

/-- The number of elements an initializer gives: its values, or the bytes of its text. -/
def Initializer.count (init : Initializer) : Nat :=
  match init.value with
  | .values exprs => exprs.length
  | .text content => Text.byteLength content.toList

/-- The array dimension of a declaration: none, `[]` or `[length]`. -/
inductive Dim where
  | scalar
  | unsized
  | sized (length : Expr)
  deriving DecidableEq

/-- The dimension as it is written. -/
def Dim.render : Dim → String
  | .scalar => ""
  | .unsized => "[]"
  | .sized length => "[" ++ length.render ++ "]"

/-- A variable. -/
structure Variable where
  /-- The name of its type. -/
  type : String
  /-- Its own name. -/
  name : String
  /-- Whether it is declared `shared`. -/
  shared : Bool
  /-- Its array dimension. -/
  dim : Dim
  /-- Its fixed address. -/
  address : Option Expr
  /-- Its initial contents. -/
  init : Option Initializer
  /-- The namespace it is declared in. -/
  ns : Namespace
  /-- Its size in bytes, once types and dimensions are known. -/
  size : Option Nat
  /-- Where it is declared. -/
  pos : Pos
  deriving DecidableEq

/-- The initial contents as they are shown. -/
def InitValue.render : InitValue → String
  | .values exprs => "\x7b" ++ ", ".intercalate (exprs.map Expr.render) ++ "\x7d"
  | .text content => Text.quoted content

/-- The name under which layout binds a variable. -/
def Variable.key (var : Variable) : String :=
  var.ns.qualify var.name

/-- The declaration as it is shown. -/
def Variable.render (var : Variable) : String :=
  (if var.shared then "shared " else "") ++ var.type ++ " " ++ var.name ++ var.dim.render ++
  (match var.address with
    | some address => " : " ++ address.render
    | none => "") ++
  (match var.init with
    | some init => " = " ++ init.value.render
    | none => "")

/-- A field of a struct. -/
structure Field where
  /-- The name of its type. -/
  type : String
  /-- Its own name. -/
  name : String
  /-- Its array dimension. -/
  dim : Dim
  deriving DecidableEq

/-- A struct type: fields one after another. -/
structure StructDef where
  /-- The type's name. -/
  name : String
  /-- Its fields in order. -/
  fields : List Field
  deriving DecidableEq

/-- Another name for a type or an array of it. -/
structure Typedef where
  /-- The new name. -/
  name : String
  /-- The type it stands for. -/
  type : String
  /-- The dimension it adds. -/
  dim : Dim
  deriving DecidableEq

/-- Named constants that are stored in a byte. -/
structure EnumDef where
  /-- The type's name. -/
  name : String
  /-- The constants in order of their first appearance. -/
  members : List (String × Int64)
  deriving DecidableEq

/-- The definition of a type. -/
inductive TypeDef where
  | struct (d : StructDef)
  | typedef (d : Typedef)
  | enum (d : EnumDef)
  deriving DecidableEq

/-- A type definition and where it stands. -/
structure TypeDecl where
  /-- The type. -/
  type : TypeDef
  /-- Where it is declared. -/
  pos : Pos
  deriving DecidableEq

/-- A braced list as it is shown. -/
def renderBraced (head : String) (items : List String) : String :=
  head ++ " \x7b " ++ ", ".intercalate items ++ " \x7d"

/-- The definition as it is shown. -/
def TypeDef.render : TypeDef → String
  | .struct d => renderBraced ("struct " ++ d.name)
    (d.fields.map fun field => field.type ++ " " ++ field.name ++ field.dim.render)
  | .typedef d => "typedef " ++ d.type ++ " " ++ d.name ++ d.dim.render
  | .enum d => renderBraced ("enum " ++ d.name)
    (d.members.map fun (name, value) => s!"{name} = {value.toInt}")

/-- What a function is for. -/
inductive FunctionKind where
  | subroutine
  /-- Spliced in at every call. -/
  | inline
  /-- An interrupt handler, perhaps of a named sort. -/
  | interrupt (sort : Option String)
  deriving DecidableEq

/-- The head of a function. -/
structure FunctionDecl where
  /-- The function's name. -/
  name : String
  /-- What it is for. -/
  kind : FunctionKind
  /-- Whether its end is never reached. -/
  noreturn : Bool
  /-- Its parameters, for an inline function. -/
  params : List String
  /-- Where it is declared. -/
  pos : Pos
  deriving DecidableEq

namespace FunctionDecl

/-- Whether the function is spliced in at its calls. -/
def isInline (decl : FunctionDecl) : Bool :=
  decl.kind = .inline

/-- Whether the function is an interrupt handler. -/
def isInterrupt (decl : FunctionDecl) : Bool :=
  match decl.kind with
  | .interrupt _ => true
  | _ => false

/-- The head as it is shown. -/
def render (decl : FunctionDecl) : String :=
  (match decl.kind with
    | .subroutine => "function "
    | .inline => "inline "
    | .interrupt none => "interrupt "
    | .interrupt (some sort) => "interrupt." ++ sort ++ " ") ++
  (if decl.noreturn then "noreturn " else "") ++
  decl.name ++ "(" ++ ", ".intercalate decl.params ++ ")"

end FunctionDecl

/-- A call of a function. -/
structure Call where
  /-- The function's name. -/
  name : String
  /-- The arguments. -/
  args : List Expr
  /-- The namespace the call stands in. -/
  ns : Namespace
  /-- The inline functions the call was spliced out of, outermost first. -/
  expansion : List String
  /-- Where it stands. -/
  pos : Pos
  deriving DecidableEq

/-- The call as it is shown. -/
def Call.render (call : Call) : String :=
  call.name ++ "(" ++ ", ".intercalate (call.args.map Expr.render) ++ ")"

/-- A return from a function. -/
structure Return where
  /-- Whether the function around it is an interrupt handler. -/
  interrupt : Bool
  /-- Where it stands. -/
  pos : Pos
  deriving DecidableEq

end CrossAsm
