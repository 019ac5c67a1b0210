import Mathlib.Data.List.Find
import CrossAsm.Isa.Encoding
import CrossAsm.Proofs.Isa.RoundTrip

/-! The CMOS processor takes every instruction of the NMOS one: in the same mode, and as the same
bytes. -/

namespace CrossAsm

namespace Cpu

/-- A processor has at least the instruction set of another. -/
def Covers (large small : Cpu) : Prop :=
  large = small ∨ large = .cmos

variable {large small : Cpu} {op : Op} {mode : Mode} {byte : UInt8} {shape : Shape}
  {zeroPage : Bool}

/-- Every processor covers itself. -/
theorem Covers.refl (cpu : Cpu) : cpu.Covers cpu :=
  .inl rfl

/-- The CMOS processor covers every other. -/
theorem cmos_covers (cpu : Cpu) : Cpu.cmos.Covers cpu :=
  .inr rfl

/-- A table has every row of one that it covers. -/
theorem Covers.table (covers : large.Covers small) {row : Opcode} (mem : row ∈ small.table) :
    row ∈ large.table := by
  -- The rows of the larger processor begin with those of the smaller one.
  obtain rfl | rfl := covers
  · exact mem
  · cases small with
    | nmos => exact List.mem_append_left _ mem
    | cmos => exact mem

/-- What has an opcode has the same one on a processor that covers it. -/
theorem Covers.opcode (covers : large.Covers small) (has : small.opcode op mode = some byte) :
    large.opcode op mode = some byte :=
  opcode_eq_some_iff.2 (covers.table (opcode_eq_some_iff.1 has))

/-- So has what has any. -/
theorem Covers.opcode_isSome (covers : large.Covers small)
    (has : (small.opcode op mode).isSome = true) : (large.opcode op mode).isSome = true := by
  -- The larger processor has the same opcode there.
  obtain ⟨byte, found⟩ := Option.isSome_iff_exists.1 has
  rw [covers.opcode found]
  rfl

/-- A row that the CMOS processor adds is none of the modes that the NMOS one can choose from for
the same operand. -/
theorem nmos_opcode_eq_none (shape : Shape) (zeroPage : Bool) :
    ∀ row ∈ Opcode.cmosOnly, row.mode ∈ candidates row.op shape zeroPage →
      ∀ mode ∈ candidates row.op shape zeroPage, nmos.opcode row.op mode = none := by
  -- Row by row, for each form of an operand.
  rcases shape with _ | _ | ⟨⟨⟩⟩ | ⟨⟨⟩⟩ | ⟨⟨⟩⟩ | ⟨⟨⟩⟩ | ⟨⟨⟩⟩ | ⟨⟨⟩⟩ | ⟨⟨⟩⟩ <;>
    cases zeroPage <;> decide +kernel

/-- Where the NMOS processor has a mnemonic in one of the modes of an operand, the CMOS one has it
in the same ones of them. -/
theorem nmos_opcode_isSome (candidate : mode ∈ candidates op shape zeroPage)
    (has : (nmos.opcode op mode).isSome = true) {other : Mode}
    (among : other ∈ candidates op shape zeroPage)
    (extended : (cmos.opcode op other).isSome = true) :
    (nmos.opcode op other).isSome = true := by
  -- A row of the larger table is an old one or a new one.
  obtain ⟨byte, found⟩ := Option.isSome_iff_exists.1 extended
  obtain old | new := List.mem_append.1 (opcode_eq_some_iff.1 found)
  · have same : nmos.opcode op other = some byte := opcode_eq_some_iff.2 old
    rw [same]
    rfl
  · -- A new row would leave the NMOS processor without any of the modes.
    have lacks := nmos_opcode_eq_none shape zeroPage _ new among mode candidate
    rw [lacks] at has
    cases has

/-- A mode that is chosen is also chosen on a processor that covers this one. -/
theorem Covers.select (covers : large.Covers small)
    (selected : small.select op shape zeroPage = some mode) :
    large.select op shape zeroPage = some mode := by
  -- The first mode that has an opcode is chosen, so the two must agree on which have one.
  obtain rfl | rfl := covers
  · exact selected
  · cases small with
    | cmos => exact selected
    | nmos =>
      have candidate : mode ∈ candidates op shape zeroPage := List.mem_of_find?_eq_some selected
      have has : (nmos.opcode op mode).isSome = true :=
        List.find?_some (p := fun mode => (nmos.opcode op mode).isSome) selected
      -- The two have the mnemonic in the same modes, so they find the same one first.
      have agree : ∀ other ∈ candidates op shape zeroPage,
          (cmos.opcode op other).isSome = (nmos.opcode op other).isSome := by
        intro other among
        rw [Bool.eq_iff_iff]
        exact ⟨nmos_opcode_isSome candidate has among, (cmos_covers _).opcode_isSome⟩
      rw [Cpu.select, firstMode, List.find?_congr agree]
      exact selected

/-- Bytes of an instruction are its bytes on a processor that covers this one. -/
theorem Covers.encode (covers : large.Covers small) {value : Option Int64} {pc : UInt16}
    {bytes : List UInt8} (encoded : small.encode op mode value pc = .ok bytes) :
    large.encode op mode value pc = .ok bytes := by
  -- Only the opcode is looked up; the rest does not depend on the processor.
  unfold Cpu.encode at encoded ⊢
  cases has : small.opcode op mode with
  | none =>
    rw [has] at encoded
    cases encoded
  | some byte =>
    rw [has] at encoded
    rw [covers.opcode has]
    exact encoded

/-- A mnemonic of a processor is one of every processor that covers it. -/
theorem Covers.supports (covers : large.Covers small) (has : small.supports op = true) :
    large.supports op = true := by
  -- A mnemonic is one of a processor if it has an opcode in some mode.
  unfold Cpu.supports at has ⊢
  rw [List.any_eq_true] at has ⊢
  obtain ⟨mode, mem, some⟩ := has
  exact ⟨mode, mem, covers.opcode_isSome some⟩

/-- Only for `inc` and `dec` the accumulator is new as an operand. -/
theorem accumulator_of_cmos (extended : (cmos.opcode op .accumulator).isSome = true) :
    (nmos.opcode op .accumulator).isSome = true ∨ op = .inc ∨ op = .dec := by
  -- Again the row is an old one or a new one, and the new ones are few.
  obtain ⟨byte, found⟩ := Option.isSome_iff_exists.1 extended
  obtain old | new := List.mem_append.1 (opcode_eq_some_iff.1 found)
  · left
    have same : nmos.opcode op .accumulator = some byte := opcode_eq_some_iff.2 old
    rw [same]
    rfl
  · right
    have only : ∀ row ∈ Opcode.cmosOnly, row.mode = .accumulator →
        row.op = .inc ∨ row.op = .dec := by
      decide
    exact only _ new rfl

end Cpu

end CrossAsm
