import CrossAsm.Entries
import CrossAsm.Text.Hex

/-! Operand expressions over wrapping 64-bit values: folding, evaluation and substitution. -/

namespace CrossAsm

/-- Why an expression has no value. -/
inductive EvalError where
  | divisionByZero
  deriving DecidableEq

/-- The text of an evaluation error. -/
def EvalError.message : EvalError → String
  | .divisionByZero => "division by zero"

/-- Operators with one operand. -/
inductive UnaryOp where
  | neg | not | lo | hi
  deriving DecidableEq

/-- Operators with two operands. -/
inductive BinaryOp where
  | add | sub | mul | div | mod | and | or | xor | shl | shr
  deriving DecidableEq

/-- The value of a unary operator: two's complement, with `lo` and `hi` the two low bytes. -/
def UnaryOp.apply : UnaryOp → Int64 → Int64
  | .neg, v => -v
  | .not, v => ~~~v
  | .lo, v => v &&& 0xFF
  | .hi, v => (v >>> 8) &&& 0xFF

/-- Whether a division has no 64-bit quotient: by zero, or the least value by minus one. -/
def undefinedQuotient (l r : Int64) : Bool :=
  r = 0 || (l = Int64.minValue && r = -1)

/-- The value of a binary operator: results wrap, a shift counts modulo 64, and a right shift keeps
the sign. -/
def BinaryOp.apply : BinaryOp → Int64 → Int64 → Except EvalError Int64
  | .add, l, r => .ok (l + r)
  | .sub, l, r => .ok (l - r)
  | .mul, l, r => .ok (l * r)
  | .div, l, r => if undefinedQuotient l r then .error .divisionByZero else .ok (l / r)
  | .mod, l, r => if undefinedQuotient l r then .error .divisionByZero else .ok (l % r)
  | .and, l, r => .ok (l &&& r)
  | .or, l, r => .ok (l ||| r)
  | .xor, l, r => .ok (l ^^^ r)
  | .shl, l, r => .ok (l <<< r)
  | .shr, l, r => .ok (l >>> r)

/-- The operator's sign. -/
def BinaryOp.sign : BinaryOp → String
  | .add => "+"
  | .sub => "-"
  | .mul => "*"
  | .div => "/"
  | .mod => "%"
  | .and => "&"
  | .or => "|"
  | .xor => "^"
  | .shl => "<<"
  | .shr => ">>"

/-- An operand expression. A `name` is as written in the source; a `ref` is a bound symbol whose
address layout will give. -/
inductive Expr where
  | number (value : Int64)
  | name (path : String)
  | ref (key : String)
  | sizeof (type : String)
  | unary (op : UnaryOp) (e : Expr)
  | binary (op : BinaryOp) (l r : Expr)
  deriving DecidableEq

namespace Expr

/-- The value of a literal. -/
def number? : Expr → Option Int64
  | .number value => some value
  | _ => none

/-- A unary operator over a folded operand. -/
def foldUnary (op : UnaryOp) : Expr → Expr
  | .number v => .number (op.apply v)
  | e => .unary op e

/-- A binary operator over folded operands. -/
def foldBinary (op : BinaryOp) : Expr → Expr → Except EvalError Expr
  | .number l, .number r => (op.apply l r).map .number
  | l, r => .ok (.binary op l r)

/-- Replaces each constant subtree by its value. -/
def fold : Expr → Except EvalError Expr
  | .unary op e => do
    return foldUnary op (← fold e)
  | .binary op l r => do
    let l ← fold l
    let r ← fold r
    foldBinary op l r
  | e => .ok e

/-- The value under an assignment of addresses, or none while one of them is unknown. -/
def eval (address : String → Option Int64) : Expr → Except EvalError (Option Int64)
  | .number value => .ok (some value)
  | .ref key => .ok (address key)
  | .name _ | .sizeof _ => .ok none
  | .unary op e => do
    return (← eval address e).map op.apply
  | .binary op l r => do
    let l ← eval address l
    let r ← eval address r
    match l, r with
    | some l, some r => return some (← op.apply l r)
    | _, _ => return none

/-- Replaces each bare name that has an argument. -/
def substitute (args : List (String × Expr)) : Expr → Expr
  | .name path => (Entries.get? path args).getD (.name path)
  | .unary op e => .unary op (substitute args e)
  | .binary op l r => .binary op (substitute args l) (substitute args r)
  | e => e

/-- A number as it is shown: hexadecimal from ten on, decimal below. -/
def renderNumber (value : Int64) : String :=
  if 9 < value.toInt then "0x" ++ Text.hexInt64 1 value else toString value.toInt

/-- The expression as it is shown, every binary operation in parentheses. -/
def render : Expr → String
  | .number value => renderNumber value
  | .name path => path
  | .ref key => key
  | .sizeof type => "sizeof(" ++ type ++ ")"
  | .unary .neg e => "-" ++ render e
  | .unary .not e => "~" ++ render e
  | .unary .lo e => "lo(" ++ render e ++ ")"
  | .unary .hi e => "hi(" ++ render e ++ ")"
  | .binary op l r => "(" ++ render l ++ op.sign ++ render r ++ ")"

end Expr

end CrossAsm
