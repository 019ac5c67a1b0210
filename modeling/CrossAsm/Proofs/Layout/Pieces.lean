import CrossAsm.Layout
import CrossAsm.Proofs.Layout.Regions

/-! Pieces of an image: what fills a reserved run of bytes, and the bytes it comes to once all
addresses are known. More addresses never change bytes that are known already. -/

namespace CrossAsm

/-- Every address that is bound stays bound to the same value. -/
def Addresses.ExtendedBy (old new : Addresses) : Prop :=
  ∀ ⦃name : String⦄ ⦃address : UInt16⦄,
    Entries.get? name old = some address → Entries.get? name new = some address

namespace Addresses.ExtendedBy

/-- Addresses extend themselves. -/
theorem refl (addresses : Addresses) : addresses.ExtendedBy addresses :=
  fun _ _ => id

/-- Extending twice is extending. -/
theorem trans {first second third : Addresses} (early : first.ExtendedBy second)
    (late : second.ExtendedBy third) : first.ExtendedBy third :=
  fun _ _ known => late (early known)

/-- Binding a new name, or an old one to the address it has, extends the addresses. -/
theorem insert {addresses : Addresses} {name : String} {address : UInt16}
    (agrees : ∀ previous, Entries.get? name addresses = some previous → previous = address) :
    addresses.ExtendedBy (Entries.insert name address addresses) := by
  -- Only the name itself could change, and it keeps the address it has.
  intro other value known
  rw [Entries.get?_insert]
  by_cases same : name = other
  · subst same
    rw [if_pos rfl, agrees value known]
  · rw [if_neg same]
    exact known

end Addresses.ExtendedBy

/-- A value that is known under some addresses is the same under more of them. -/
theorem Expr.eval_extended {small large : String → Option Int64}
    (extended : ∀ {key : String} {value : Int64}, small key = some value → large key = some value)
    {e : Expr} {value : Int64} (known : e.eval small = .ok (some value)) :
    e.eval large = .ok (some value) := by
  -- A known value comes from known operands, so no operand changes.
  induction e generalizing value with
  | number _ => exact known
  | name _ => cases known
  | sizeof _ => cases known
  | ref key =>
    simp only [Expr.eval, Except.ok.injEq] at known ⊢
    exact extended known
  | unary op e ih =>
    simp only [Expr.eval, except_bind_eq_ok, except_pure_eq_ok, Option.map_eq_some_iff] at known ⊢
    obtain ⟨_, inner, v, rfl, applied⟩ := known
    exact ⟨_, ih inner, v, rfl, applied⟩
  | binary op l r left right =>
    simp only [Expr.eval, except_bind_eq_ok] at known ⊢
    obtain ⟨x, first, y, second, applied⟩ := known
    rcases x with _ | x
    · cases applied
    rcases y with _ | y
    · cases applied
    exact ⟨_, left first, _, right second, applied⟩

namespace Addresses

variable {old new : Addresses}

/-- A value that is known stays the same. -/
theorem eval_extended (extended : old.ExtendedBy new) {e : Expr} {pos : Pos} {value : Int64}
    (known : old.eval e pos = .ok (some value)) : new.eval e pos = .ok (some value) := by
  rw [Addresses.eval, mapError_eq_ok] at known ⊢
  refine Expr.eval_extended ?_ known
  -- An address is read as a number, the same one under both.
  intro key value bound
  obtain ⟨address, found, rfl⟩ := Option.map_eq_some_iff.1 bound
  rw [extended found, Option.map_some]

/-- Values that are known stay the same. -/
theorem evalAll_extended (extended : old.ExtendedBy new) {pos : Pos} {exprs : List Expr}
    {values : List Int64} (known : old.evalAll pos exprs = .ok (some values)) :
    new.evalAll pos exprs = .ok (some values) := by
  -- The list is known only if every value in it is, so the first and the rest go one by one.
  induction exprs generalizing values with
  | nil => exact known
  | cons e others ih =>
    simp only [Addresses.evalAll, except_bind_eq_ok] at known ⊢
    obtain ⟨x, first, rest⟩ := known
    cases x with
    | none => simp at rest
    | some value =>
      simp only [except_bind_eq_ok, except_pure_eq_ok, Option.map_eq_some_iff] at rest
      obtain ⟨_, rest, tail, rfl, rfl⟩ := rest
      refine ⟨some value, eval_extended extended first, ?_⟩
      simp only [except_bind_eq_ok, except_pure_eq_ok]
      exact ⟨_, ih rest, rfl⟩

end Addresses

namespace Deferred

variable {old new : Addresses}

/-- An operand that is known stays the same. -/
theorem operandValue_extended (extended : old.ExtendedBy new) {line : Instruction}
    {value : Option Int64} (known : operandValue old line = .ok (some value)) :
    operandValue new line = .ok (some value) := by
  -- Without an operand no address is asked.
  unfold operandValue at known ⊢
  split at known
  · exact known
  · simp only [except_bind_eq_ok, except_pure_eq_ok, Option.map_eq_some_iff] at known ⊢
    obtain ⟨_, inner, v, rfl, rfl⟩ := known
    exact ⟨_, Addresses.eval_extended extended inner, v, rfl, rfl⟩

/-- Contents that are known stay the same. -/
theorem dataBytes_extended (extended : old.ExtendedBy new) {session : Session} {var : Variable}
    {bytes : List UInt8} (known : dataBytes session old var = .ok (some bytes)) :
    dataBytes session new var = .ok (some bytes) := by
  -- Without values no address is needed.
  unfold dataBytes at known ⊢
  split at known
  · exact known
  · exact known
  · -- The width of an element does not depend on addresses, and its value is known.
    simp only [except_bind_eq_ok, except_pure_eq_ok, Option.map_eq_some_iff] at known ⊢
    obtain ⟨width, sized, _, inner, values, rfl, rfl⟩ := known
    exact ⟨width, sized, _, Addresses.evalAll_extended extended inner, values, rfl, rfl⟩

end Deferred

/-- What fills a reserved run of bytes. -/
inductive Content where
  /-- An instruction in its mode. -/
  | instruction (line : Instruction) (mode : Mode)
  /-- A variable with initial contents, and its size. -/
  | data (var : Variable) (size : Nat)
  /-- Bytes as they are. -/
  | raw (bytes : List UInt8)

/-- The number of bytes that a content takes. -/
def Content.size : Content → Nat
  | .instruction _ mode => mode.length
  | .data _ size => size
  | .raw bytes => bytes.length

/-- The bytes that a content comes to at an address: an instruction is encoded with the value of its
operand, initial contents are cut or filled up with zeros to the size. -/
inductive Content.Assembles (session : Session) (addresses : Addresses) (address : UInt16) :
    Content → List UInt8 → Prop
  | instruction {line : Instruction} {mode : Mode} {value : Option Int64} {bytes : List UInt8}
    (known : Deferred.operandValue addresses line = .ok (some value))
    (encoded : session.cpu.encode line.op mode value address = .ok bytes) :
    Assembles session addresses address (.instruction line mode) bytes
  | data {var : Variable} {size : Nat} {bytes : List UInt8}
    (known : Deferred.dataBytes session addresses var = .ok (some bytes)) :
    Assembles session addresses address (.data var size) (resized size bytes)
  | raw (bytes : List UInt8) : Assembles session addresses address (.raw bytes) bytes

/-- The bytes behind an opcode are as many as the mode says. -/
theorem operandBytes_length {mode : Mode} {value : Int64} {pc : UInt16} {bytes : List UInt8}
    (long : mode.length ≠ 1) (encoded : operandBytes mode value pc = .ok bytes) :
    bytes.length + 1 = mode.length := by
  -- Each mode writes its one or two bytes once its range check is passed.
  unfold operandBytes at encoded
  cases mode <;> simp [Mode.length] at long encoded ⊢ <;> split at encoded <;> cases encoded <;> rfl

/-- An encoded instruction is as long as its mode says. -/
theorem Cpu.encode_length {cpu : Cpu} {op : Op} {mode : Mode} {value : Option Int64} {pc : UInt16}
    {bytes : List UInt8} (encoded : cpu.encode op mode value pc = .ok bytes) :
    bytes.length = mode.length := by
  -- The opcode is one byte; a mode of one byte has nothing behind it.
  unfold Cpu.encode at encoded
  split at encoded
  · cases encoded
  · rename_i opcode _
    by_cases short : mode.length = 1
    · rw [if_pos short] at encoded
      cases encoded
      simp [short]
    · rw [if_neg short] at encoded
      cases value with
      | none => cases encoded
      | some value =>
        obtain ⟨rest, inner, rfl⟩ : ∃ rest, operandBytes mode value pc = .ok rest ∧
            opcode :: rest = bytes := by
          cases inner : operandBytes mode value pc <;> simp_all [Except.map]
        rw [List.length_cons, operandBytes_length short inner]

/-- Bytes that are cut or filled up have the size asked for. -/
@[simp]
theorem length_resized (size : Nat) (bytes : List UInt8) : (resized size bytes).length = size := by
  -- What the cut leaves short is exactly what the zeros fill.
  simp only [resized, List.length_append, List.length_take, List.length_replicate]
  omega

namespace Content.Assembles

variable {session : Session} {old new : Addresses} {address : UInt16} {content : Content}
  {bytes : List UInt8}

/-- A content comes to as many bytes as it takes. -/
theorem length (assembles : content.Assembles session old address bytes) :
    bytes.length = content.size := by
  -- Code has the length of its mode, and contents are cut to the size of the variable.
  cases assembles with
  | instruction _ encoded => exact Cpu.encode_length encoded
  | data => exact length_resized ..
  | raw => rfl

/-- More addresses change no bytes. -/
theorem extended (extended : old.ExtendedBy new)
    (assembles : content.Assembles session old address bytes) :
    content.Assembles session new address bytes := by
  -- Only known operands and known contents depend on addresses.
  cases assembles with
  | instruction known encoded =>
    exact .instruction (Deferred.operandValue_extended extended known) encoded
  | data known => exact .data (Deferred.dataBytes_extended extended known)
  | raw => exact .raw _

/-- A content comes to the same bytes however often it is assembled. -/
theorem unique {other : List UInt8} (assembles : content.Assembles session old address bytes)
    (again : content.Assembles session old address other) : bytes = other := by
  -- Operand value, encoding and contents are each the answer of a function.
  cases assembles with
  | instruction known encoded =>
    cases again with
    | instruction known' encoded' =>
      cases known.symm.trans known'
      cases encoded.symm.trans encoded'
      rfl
  | data known =>
    cases again with
    | data known' =>
      cases known.symm.trans known'
      rfl
  | raw =>
    cases again
    rfl

end Content.Assembles

/-- A run of bytes that was reserved, and what fills it. -/
structure Piece where
  /-- Where it is. -/
  slot : Slot
  /-- What fills it. -/
  content : Content

namespace Piece

/-- The number of bytes of a piece. -/
def size (piece : Piece) : Nat :=
  piece.content.size

/-- Whether a piece has a byte at an offset of a region. -/
def Covers (piece : Piece) (bank region offset : Nat) : Prop :=
  piece.slot.bank = bank ∧ piece.slot.region = region ∧
    piece.slot.offset ≤ offset ∧ offset < piece.slot.offset + piece.size

/-- Two pieces that share no byte. -/
def Apart (a b : Piece) : Prop :=
  ∀ bank region offset, a.Covers bank region offset → ¬b.Covers bank region offset

/-- Sharing no byte is mutual. -/
theorem Apart.symm {a b : Piece} (apart : a.Apart b) : b.Apart a :=
  fun bank region offset second first => apart bank region offset first second

/-- What waits for the addresses of a piece at an address. -/
def deferred? (piece : Piece) (address : UInt16) : Option Deferred :=
  match piece.content with
  | .instruction line mode => some (.instruction line mode piece.slot address)
  | .data var size => some (.data var size piece.slot)
  | .raw _ => none

/-- What waits tells its piece. -/
theorem eq_of_deferred? {a b : Piece} {first second : UInt16} {item : Deferred}
    (one : a.deferred? first = some item) (two : b.deferred? second = some item) : a = b := by
  obtain ⟨slot, content⟩ := a
  obtain ⟨slot', content'⟩ := b
  have same := one.trans two.symm
  -- The place and all of the content stand in the item.
  cases content <;> cases content' <;> simp [deferred?] at one two same
  · obtain ⟨rfl, rfl, rfl, -⟩ := same
    rfl
  · obtain ⟨rfl, rfl, rfl⟩ := same
    rfl

/-- An item that is done writes the bytes of its piece. -/
theorem attempt_eq_some {piece : Piece} {address : UInt16} {item : Deferred} {session : Session}
    {addresses : Addresses} {completion : Completion} (waits : piece.deferred? address = some item)
    (done : item.attempt session addresses = .ok (some completion)) :
    ∃ bytes, completion = .write piece.slot bytes ∧
      piece.content.Assembles session addresses address bytes := by
  -- The kind of content says which item waits, and the item which attempt was made.
  unfold deferred? at waits
  cases content : piece.content with
  | instruction line mode =>
    simp only [content, Option.some.injEq] at waits
    subst waits
    simp only [Deferred.attempt, Deferred.instructionBytes, except_bind_eq_ok, except_pure_eq_ok,
      Option.map_eq_some_iff] at done
    -- An operand that is still unknown would have given nothing to write.
    obtain ⟨_, ⟨known, value, done⟩, bytes, rfl, rfl⟩ := done
    cases known with
    | none => simp at done
    | some known =>
      simp only [except_bind_eq_ok, except_pure_eq_ok, mapError_eq_ok, Option.some.injEq] at done
      obtain ⟨_, encoded, rfl⟩ := done
      exact ⟨_, rfl, .instruction value encoded⟩
  | data var size =>
    simp only [content, Option.some.injEq] at waits
    subst waits
    simp only [Deferred.attempt, except_bind_eq_ok, except_pure_eq_ok,
      Option.map_eq_some_iff] at done
    obtain ⟨_, known, bytes, rfl, rfl⟩ := done
    exact ⟨_, rfl, .data known⟩
  | raw bytes => simp [content] at waits

end Piece

end CrossAsm
