import CrossAsm.Binding
import CrossAsm.Memory.Rom
import CrossAsm.Session

/-! Items of layout that wait for addresses, and what completes them. -/

namespace CrossAsm

/-- The addresses bound so far. -/
abbrev Addresses : Type := List (String × UInt16)

/-- Work that may have to wait until more symbols are bound. -/
inductive Deferred where
  /-- An instruction, its mode, and its place and address. -/
  | instruction (line : Instruction) (mode : Mode) (slot : Slot) (pc : UInt16)
  /-- A variable with initial contents, its size and its place. -/
  | data (var : Variable) (size : Nat) (slot : Slot)
  /-- An interrupt vector and the name of its routine. -/
  | vector (kind : VectorKind) (name : String) (pos : Pos)

/-- What is done with an item once all its symbols are bound. -/
inductive Completion where
  | write (slot : Slot) (bytes : List UInt8)
  | vector (kind : VectorKind) (address : UInt16)

/-- The value of an expression under the addresses bound so far; none while one is missing. -/
def Addresses.eval (addresses : Addresses) (e : Expr) (pos : Pos) : Except Error (Option Int64) :=
  (e.eval fun key => (Entries.get? key addresses).map fun address => Int64.ofNat address.toNat)
    |>.mapError (.eval pos)

/-- The values of expressions in order; none while one of them is not known. -/
def Addresses.evalAll (addresses : Addresses) (pos : Pos) :
    List Expr → Except Error (Option (List Int64))
  | [] => .ok (some [])
  | e :: others => do
    match ← addresses.eval e pos with
    | none => return none
    | some value => return (← addresses.evalAll pos others).map (value :: ·)

/-- The low bytes of a number, the lowest first. -/
def lowBytes : Nat → Int → List UInt8
  | 0, _ => []
  | count + 1, value => lowByte value :: lowBytes count (value / 256)

/-- The low bytes of a value, the lowest first; a value has eight of them. -/
def littleEndian (width : Nat) (value : Int64) : List UInt8 :=
  lowBytes (min width 8) value.toInt

/-- Bytes cut to a size, or filled up to it with zeros. -/
def resized (size : Nat) (bytes : List UInt8) : List UInt8 :=
  bytes.take size ++ List.replicate (size - bytes.length) 0

namespace Deferred

/-- The item led by its position. -/
def located : Deferred → String
  | .instruction line .. => line.pos.render ++ ": " ++ line.render
  | .data var .. => var.pos.render ++ ": " ++ var.render
  | .vector kind name pos => pos.render ++ ": " ++ (Directive.vector kind name).render

/-- The value of an operand, if there is one; none while it is not known. -/
def operandValue (addresses : Addresses) (line : Instruction) :
    Except Error (Option (Option Int64)) :=
  match line.operand.value? with
  | none => .ok (some none)
  | some e => return (← addresses.eval e line.pos).map some

/-- The bytes of an instruction; none while its operand is not known. -/
def instructionBytes (cpu : Cpu) (addresses : Addresses) (line : Instruction) (mode : Mode)
    (pc : UInt16) : Except Error (Option (List UInt8)) := do
  match ← operandValue addresses line with
  | none => return none
  | some value =>
    return some (← (cpu.encode line.op mode value pc).mapError (.encode line.pos))

/-- The initial contents of a variable, element by element; none while a value is not known. -/
def dataBytes (session : Session) (addresses : Addresses) (var : Variable) :
    Except Error (Option (List UInt8)) :=
  match var.init.map Initializer.value with
  | none => .ok (some [])
  | some (.text content) => .ok (some content.toUTF8.toList)
  | some (.values exprs) => do
    let view : View := { scopes := session.scopes, ns := var.ns, pos := var.pos }
    -- Each value takes the width of the element type.
    let width := (← view.sizeOfType var.type).getD 1
    return (← addresses.evalAll var.pos exprs).map (·.flatMap (littleEndian width))

/-- What completes an item; none while a symbol of it is unbound. -/
def attempt (session : Session) (addresses : Addresses) :
    Deferred → Except Error (Option Completion)
  | .instruction line mode slot pc =>
    return (← instructionBytes session.cpu addresses line mode pc).map (.write slot)
  | .data var size slot =>
    return (← dataBytes session addresses var).map fun bytes => .write slot (resized size bytes)
  | .vector kind name _ => .ok ((Entries.get? name addresses).map (.vector kind))

end Deferred

end CrossAsm
