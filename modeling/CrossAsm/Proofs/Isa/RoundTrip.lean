import Mathlib.Data.List.Nodup
import CrossAsm.Isa.Decoded
import CrossAsm.Proofs.Layout.Pieces

/-! Encoding and decoding undo each other. The tables are read in both directions without
ambiguity, so an opcode says how many bytes follow it, and a stretch of instructions is read back
one by one. -/

namespace CrossAsm

/-! ### Tables without ambiguity -/

/-- Whether no number stands twice in a list or is among those seen, which are the bits of one
number. -/
def unseen (seen : Nat) : List Nat → Bool
  | [] => true
  | number :: rest => !seen.testBit number && unseen (seen ||| 1 <<< number) rest

/-- A list that passes has each number once, and none that was seen before. -/
theorem nodup_of_unseen {seen : Nat} {numbers : List Nat} (passes : unseen seen numbers = true) :
    numbers.Nodup ∧ ∀ number ∈ numbers, seen.testBit number = false := by
  -- Each number is marked before the rest is looked at, so the rest cannot have it.
  induction numbers generalizing seen with
  | nil => exact ⟨List.nodup_nil, nofun⟩
  | cons number rest ih =>
    simp only [unseen, Bool.and_eq_true, Bool.not_eq_true'] at passes
    obtain ⟨fresh, later⟩ := passes
    obtain ⟨distinct, others⟩ := ih later
    simp only [Nat.testBit_or, Bool.or_eq_false_iff] at others
    have absent : number ∉ rest := by
      intro again
      simpa using (others number again).2
    refine ⟨List.nodup_cons.2 ⟨absent, distinct⟩, List.forall_mem_cons.2 ⟨fresh, ?_⟩⟩
    exact fun other inside => (others other inside).1

/-- With keys that are all different, a search for a key finds the one row that has it. -/
theorem find?_eq_some_iff_of_nodup {α κ : Type} {rows : List α} {key : α → κ}
    (distinct : (rows.map key).Nodup) (p : α → Bool) (wanted : κ)
    (tells : ∀ row, p row = true ↔ key row = wanted) (row : α) :
    rows.find? p = some row ↔ row ∈ rows ∧ key row = wanted := by
  -- What is found has the key; what has the key can be no other row than the one that is found.
  constructor
  · intro found
    exact ⟨List.mem_of_find?_eq_some found, (tells row).1 (List.find?_some found)⟩
  · rintro ⟨inside, keyed⟩
    obtain ⟨other, found⟩ : ∃ other, rows.find? p = some other :=
      Option.isSome_iff_exists.1 (List.find?_isSome.2 ⟨row, inside, (tells row).2 keyed⟩)
    -- What is found first is in the list too, and has the same key.
    have otherKeyed : key other = wanted := (tells other).1 (List.find?_some found)
    have same : other = row :=
      List.inj_on_of_nodup_map distinct (List.mem_of_find?_eq_some found) inside
        (otherKeyed.trans keyed.symm)
    rw [found, same]

namespace Cpu

/-- No two rows of a table have the same byte. -/
theorem table_bytes_nodup (cpu : Cpu) : (cpu.table.map Opcode.byte).Nodup := by
  -- Each table is gone through once, with the bytes seen so far in a mask.
  have passes : unseen 0 ((cpu.table.map Opcode.byte).map UInt8.toNat) = true := by
    cases cpu <;> decide +kernel
  exact (nodup_of_unseen passes).1.of_map

/-- No two rows of a table have the same mnemonic and mode. -/
theorem table_pairs_nodup (cpu : Cpu) :
    (cpu.table.map fun row => (row.op, row.mode)).Nodup := by
  -- There are fewer than sixteen modes, so that each pair has a number of its own.
  have passes : unseen 0 ((cpu.table.map fun row => (row.op, row.mode)).map
      fun pair => pair.1.ctorIdx * 16 + pair.2.ctorIdx) = true := by
    cases cpu <;> decide +kernel
  exact (nodup_of_unseen passes).1.of_map

variable {cpu : Cpu} {op : Op} {mode : Mode} {byte : UInt8}

/-- The opcode of a mnemonic in a mode is that of its row. -/
theorem opcode_eq_some_iff : cpu.opcode op mode = some byte ↔ ⟨op, mode, byte⟩ ∈ cpu.table := by
  -- No two rows have the same mnemonic and mode.
  have search := find?_eq_some_iff_of_nodup cpu.table_pairs_nodup
    (fun row => row.op = op ∧ row.mode = mode) (op, mode) (by simp)
  simp only [opcode, Option.map_eq_some_iff, search]
  constructor
  · rintro ⟨row, ⟨inside, same⟩, rfl⟩
    cases same
    exact inside
  · exact fun inside => ⟨_, ⟨inside, rfl⟩, rfl⟩

/-- A byte is read as the mnemonic and mode of its row. -/
theorem decode_eq_some_iff : cpu.decode byte = some (op, mode) ↔ ⟨op, mode, byte⟩ ∈ cpu.table := by
  -- No two rows have the same byte.
  have search := find?_eq_some_iff_of_nodup cpu.table_bytes_nodup
    (fun row => row.byte = byte) byte (by simp)
  simp only [decode, Option.map_eq_some_iff, search]
  constructor
  · rintro ⟨row, ⟨inside, rfl⟩, same⟩
    cases same
    exact inside
  · exact fun inside => ⟨_, ⟨inside, rfl⟩, rfl⟩

/-- The two directions of a table agree. -/
theorem decode_iff_opcode : cpu.decode byte = some (op, mode) ↔ cpu.opcode op mode = some byte :=
  decode_eq_some_iff.trans opcode_eq_some_iff.symm

end Cpu

/-! ### Operands -/

/-- The number that a byte stands for as an offset. -/
theorem toInt_toInt8 (byte : UInt8) :
    byte.toInt8.toInt = if byte.toNat < 128 then (byte.toNat : Int) else byte.toNat - 256 := by
  -- The offset is the byte read with a sign.
  have unsigned : byte.toInt8.toBitVec.toNat = byte.toNat := rfl
  rw [Int8.toInt, BitVec.toInt, unsigned]
  -- Twice the byte is compared with the whole range.
  split <;> split <;> omega

/-- The low byte of a value is the value modulo 256. -/
theorem toNat_lowByte (value : Int) : ((lowByte value).toNat : Int) = value % 256 := by
  -- The remainder of a byte is not negative.
  rw [lowByte, UInt8.toNat_ofNat', Int.natCast_emod, Int.toNat_of_nonneg (by omega)]
  omega

/-- A byte is its own low byte. -/
theorem lowByte_toNat (byte : UInt8) : lowByte byte.toNat = byte := by
  -- A byte is below 256.
  have small := byte.toNat_lt
  rw [← UInt8.toNat_inj, ← Int.natCast_inj, toNat_lowByte]
  omega

/-- A byte is the low byte of its offset. -/
theorem lowByte_toInt8 (byte : UInt8) : lowByte byte.toInt8.toInt = byte := by
  -- The offset differs from the byte by 256 or nothing.
  have small := byte.toNat_lt
  rw [← UInt8.toNat_inj, ← Int.natCast_inj, toNat_lowByte, toInt_toInt8]
  split <;> omega

/-- An offset that a branch can have is read back from its low byte. -/
theorem toInt8_lowByte {offset : Int} (least : -128 ≤ offset) (most : offset ≤ 127) :
    (lowByte offset).toInt8.toInt = offset := by
  -- The range of an offset has one number for each byte.
  have low := toNat_lowByte offset
  rw [toInt_toInt8]
  split <;> omega

/-- What is left of a value in the operand of a mode is the value modulo this. -/
def Mode.modulus (mode : Mode) : Int :=
  if mode.length = 2 ∧ mode ≠ .relative then 256 else 65536

/-- What an operand is read back as. -/
def Mode.reduced (mode : Mode) (value : Int64) : UInt16 :=
  UInt16.ofNat (value.toInt % mode.modulus).toNat

/-- A word is what a value is reduced to, if it is equal to the value up to the modulus. -/
theorem Mode.eq_reduced {mode : Mode} {value : Int64} {word : UInt16}
    (same : (word.toNat : Int) = value.toInt % mode.modulus) : word = mode.reduced value := by
  -- A word is below the modulus of any mode.
  have small := word.toNat_lt
  rw [← UInt16.toNat_inj, reduced, ← same, UInt16.toNat_ofNat', Int.toNat_natCast]
  omega

namespace Decoded

/-- The target of a branch lies at its offset from the instruction after it, around the end of the
address space if need be. -/
theorem operandValue_relative (byte : UInt8) (rest : List UInt8) (pc : UInt16) :
    ∃ target : UInt16, operandValue .relative (byte :: rest) pc = some target ∧
      (target.toNat : Int) = (pc.toNat + 2 + byte.toInt8.toInt) % 65536 := by
  -- The offset has a sign, and the sum is taken around the address space.
  refine ⟨_, rfl, ?_⟩
  have small := byte.toNat_lt
  have split : byte < 0x80 ↔ byte.toNat < 128 := UInt8.lt_iff_toNat_lt
  rw [toInt_toInt8]
  -- A byte from 128 on counts back from the next page.
  by_cases ahead : byte.toNat < 128
  · rw [if_pos ahead, if_pos (split.2 ahead)]
    simp only [UInt16.toNat_add, UInt8.toNat_toUInt16, UInt16.toNat_ofNat]
    omega
  · rw [if_neg ahead, if_neg (mt split.1 ahead)]
    simp only [UInt16.toNat_add, UInt8.toNat_toUInt16, UInt16.toNat_ofNat]
    omega

/-- A short operand is one byte. -/
theorem operandValue_short {mode : Mode} (two : mode.length = 2) (absolute : mode ≠ .relative)
    (byte : UInt8) (rest : List UInt8) (pc : UInt16) :
    operandValue mode (byte :: rest) pc = some byte.toUInt16 := by
  simp [operandValue, two, absolute]

/-- A long operand is two bytes, the low one first. -/
theorem operandValue_long {mode : Mode} (three : mode.length = 3) (low high : UInt8)
    (rest : List UInt8) (pc : UInt16) :
    operandValue mode (low :: high :: rest) pc = some (low.toUInt16 + high.toUInt16 * 256) := by
  simp [operandValue, three]

end Decoded

/-- Every instruction has an opcode. -/
theorem Mode.length_pos (mode : Mode) : 0 < mode.length := by
  cases mode <;> decide

/-- The three ways in which the operand of a mode is written: as an offset, as a byte, as two
bytes. -/
inductive Mode.Width : Mode → Prop
  | offset : Width .relative
  | short {mode : Mode} (two : mode.length = 2) (absolute : mode ≠ .relative) : Width mode
  | long {mode : Mode} (three : mode.length = 3) : Width mode

/-- A mode has no operand, or one of three kinds. -/
theorem Mode.width {mode : Mode} (operand : mode.length ≠ 1) : mode.Width := by
  cases mode <;>
    first | exact .offset | exact .short rfl nofun | exact .long rfl | exact absurd rfl operand

/-- The least value of a short operand; an immediate one may be given as a negative number. -/
def Mode.least (mode : Mode) : Int :=
  if mode = .immediate then -128 else 0

/-- A short operand takes a byte. -/
theorem operandBytes_short {mode : Mode} (two : mode.length = 2) (absolute : mode ≠ .relative)
    (value : Int64) (pc : UInt16) :
    operandBytes mode value pc =
      if mode.least ≤ value.toInt ∧ value.toInt ≤ 0xFF then
        .ok [lowByte value.toInt]
      else .error (.valueOutOfRange mode value) := by
  -- By cases on the modes of that length.
  cases mode <;> first | rfl | exact absurd rfl absolute | cases two

/-- A long operand takes a word. -/
theorem operandBytes_long {mode : Mode} (three : mode.length = 3) (value : Int64) (pc : UInt16) :
    operandBytes mode value pc =
      if 0 ≤ value.toInt ∧ value.toInt ≤ 0xFFFF then
        .ok [lowByte value.toInt, lowByte (value.toInt / 256)]
      else .error (.valueOutOfRange mode value) := by
  -- By cases on the modes of that length.
  cases mode <;> first | rfl | cases three

/-- An operand is read back from the bytes it is written as, reduced to what they hold. -/
theorem operandValue_operandBytes {mode : Mode} {value : Int64} {pc : UInt16} {bytes : List UInt8}
    (operand : mode.length ≠ 1) (encoded : operandBytes mode value pc = .ok bytes)
    (rest : List UInt8) :
    Decoded.operandValue mode (bytes ++ rest) pc = some (mode.reduced value) := by
  -- By the width of the operand: an offset, one byte or two.
  cases mode.width operand with
  | offset =>
    -- A branch is written as an offset if the target is near.
    simp only [operandBytes] at encoded
    split at encoded
    · rename_i near
      cases encoded
      -- The offset survives as a byte, and is added to the same address again.
      obtain ⟨target, read, lies⟩ := Decoded.operandValue_relative
        (lowByte (value.toInt - (pc.toNat + 2))) rest pc
      rw [List.singleton_append, read, Option.some_inj]
      apply Mode.eq_reduced
      rw [lies, toInt8_lowByte near.1 near.2, Mode.modulus, if_neg (by simp)]
      congr 1
      omega
    · -- One that is not near is not written.
      cases encoded
  | short two absolute =>
    -- One byte holds the value if it is small.
    rw [operandBytes_short two absolute] at encoded
    split at encoded
    · cases encoded
      rw [List.singleton_append, Decoded.operandValue_short two absolute, Option.some_inj]
      apply Mode.eq_reduced
      rw [UInt8.toNat_toUInt16, toNat_lowByte, Mode.modulus, if_pos ⟨two, absolute⟩]
    · cases encoded
  | long three =>
    -- Two bytes hold the value, low one first.
    rw [operandBytes_long three] at encoded
    split at encoded
    · cases encoded
      have low := toNat_lowByte value.toInt
      have high := toNat_lowByte (value.toInt / 256)
      rw [List.cons_append, List.singleton_append, Decoded.operandValue_long three, Option.some_inj]
      apply Mode.eq_reduced
      rw [Mode.modulus, if_neg (by simp [three])]
      -- Two digits in base 256 make up the value, which fits into them.
      simp only [UInt16.toNat_add, UInt16.toNat_mul, UInt8.toNat_toUInt16, UInt16.reduceToNat]
      omega
    · cases encoded

/-- A word as a value. -/
def wordValue (word : UInt16) : Int64 :=
  Int64.ofNat word.toNat

/-- A word is a value of its own size. -/
theorem toInt_wordValue (word : UInt16) : (wordValue word).toInt = word.toNat := by
  -- A word is far below the greatest value.
  have small := word.toNat_lt
  exact Int64.toInt_ofNat_of_lt (by omega)

/-- A branch at an address whose offset byte does not lead out of the address space. -/
def StaysInside (pc : UInt16) (byte : UInt8) : Prop :=
  0 ≤ (pc.toNat : Int) + 2 + byte.toInt8.toInt ∧ (pc.toNat : Int) + 2 + byte.toInt8.toInt ≤ 0xFFFF

/-- An operand that was read is written as the bytes it was read from; a branch only if its target
was not reached around the end of the address space. -/
theorem operandBytes_operandValue {mode : Mode} {word : UInt16} {pc : UInt16} {rest : List UInt8}
    (operand : mode.length ≠ 1) (read : Decoded.operandValue mode rest pc = some word)
    (inside : mode = .relative → ∀ byte ∈ rest.head?, StaysInside pc byte) :
    operandBytes mode (wordValue word) pc = .ok (rest.take (mode.length - 1)) := by
  -- By the width again; what was read has the bytes it needs.
  have value := toInt_wordValue word
  cases mode.width operand with
  | offset =>
    -- A branch reads one byte.
    cases rest with
    | nil => cases read
    | cons byte rest =>
      obtain ⟨target, same, lies⟩ := Decoded.operandValue_relative byte rest pc
      obtain rfl : target = word := Option.some.inj (same.symm.trans read)
      obtain ⟨least, most⟩ := inside rfl byte rfl
      -- Without a wrap the distance to the target is the offset that was read.
      have offset : (wordValue target).toInt - (pc.toNat + 2) = byte.toInt8.toInt := by omega
      have bounds := toInt_toInt8 byte
      have small := byte.toNat_lt
      simp only [operandBytes, offset, lowByte_toInt8]
      rw [if_pos (by split at bounds <;> omega)]
      rfl
  | short two absolute =>
    -- A short operand is its byte.
    cases rest with
    | nil => simp [Decoded.operandValue, two] at read
    | cons byte rest =>
      rw [Decoded.operandValue_short two absolute, Option.some_inj] at read
      subst read
      rw [UInt8.toNat_toUInt16] at value
      have small := byte.toNat_lt
      have least : mode.least ≤ 0 := by
        unfold Mode.least
        split <;> omega
      rw [operandBytes_short two absolute, value, lowByte_toNat, two, if_pos (by omega)]
      rfl
  | long three =>
    -- A long operand is two bytes, low one first.
    match rest, read with
    | [], read => simp [Decoded.operandValue, three] at read
    | [_], read => simp [Decoded.operandValue, three] at read
    | low :: high :: rest, read =>
      rw [Decoded.operandValue_long three, Option.some_inj] at read
      subst read
      have lowSmall := low.toNat_lt
      have highSmall := high.toNat_lt
      have word : (low.toUInt16 + high.toUInt16 * 256).toNat = low.toNat + high.toNat * 256 := by
        simp only [UInt16.toNat_add, UInt16.toNat_mul, UInt8.toNat_toUInt16, UInt16.reduceToNat]
        omega
      rw [word] at value
      -- Both digits are found again.
      have lowAgain : lowByte (low.toNat + high.toNat * 256 : Nat) = low := by
        rw [← UInt8.toNat_inj, ← Int.natCast_inj, toNat_lowByte]
        omega
      have highAgain : lowByte ((low.toNat + high.toNat * 256 : Nat) / 256) = high := by
        rw [← UInt8.toNat_inj, ← Int.natCast_inj, toNat_lowByte]
        omega
      rw [operandBytes_long three, value, lowAgain, highAgain, three]
      rw [if_pos (by omega)]
      rfl

/-! ### Instructions -/

/-- An instruction as it is handed to the encoder. -/
structure MachineInst where
  /-- The mnemonic. -/
  op : Op
  /-- The addressing mode. -/
  mode : Mode
  /-- The value of the operand, if one is given. -/
  value : Option Int64

/-- What an instruction is read back as: a value is looked at only where the mode has an operand, and
then reduced to what the operand holds. -/
def MachineInst.decoded (inst : MachineInst) : Decoded :=
  ⟨inst.op, inst.mode, if inst.mode.length = 1 then none else inst.value.map inst.mode.reduced⟩

/-- An instruction is read back from its bytes, whatever stands behind them. -/
theorem decode_encode {cpu : Cpu} {inst : MachineInst} {pc : UInt16} {bytes : List UInt8}
    (encoded : cpu.encode inst.op inst.mode inst.value pc = .ok bytes) (rest : List UInt8) :
    Decoded.decode cpu (bytes ++ rest) pc = some inst.decoded := by
  -- The opcode tells the mnemonic and the mode, and the mode how many bytes follow.
  obtain ⟨op, mode, value⟩ := inst
  simp only [Cpu.encode] at encoded
  cases row : cpu.opcode op mode with
  | none => simp [row] at encoded
  | some opcode =>
    have read : cpu.decode opcode = some (op, mode) := Cpu.decode_iff_opcode.2 row
    by_cases short : mode.length = 1
    · -- The opcode is all there is.
      obtain rfl : [opcode] = bytes := by simpa [row, short] using encoded
      simp [Decoded.decode, MachineInst.decoded, read, short]
    · cases value with
      | none => simp [row, short] at encoded
      | some value =>
        cases written : operandBytes mode value pc with
        | error e => simp [row, short, written, Except.map] at encoded
        | ok tail =>
          obtain rfl : opcode :: tail = bytes := by
            simpa [row, short, written, Except.map] using encoded
          have again := operandValue_operandBytes short written rest
          simp [Decoded.decode, MachineInst.decoded, read, short, again]

/-- An instruction that was read is encoded as the bytes it was read from; a branch only if its
target was not reached around the end of the address space. -/
theorem encode_decode {cpu : Cpu} {inst : Decoded} {pc : UInt16} {bytes : List UInt8}
    (read : Decoded.decode cpu bytes pc = some inst)
    (inside : inst.mode = .relative → ∀ byte ∈ bytes[1]?, StaysInside pc byte) :
    cpu.encode inst.op inst.mode (inst.value.map wordValue) pc = .ok (bytes.take inst.length) := by
  -- The opcode is the only one of its mnemonic and mode, so encoding finds it again.
  cases bytes with
  | nil => cases read
  | cons opcode rest =>
    cases row : cpu.decode opcode with
    | none => simp [Decoded.decode, row] at read
    | some pair =>
      obtain ⟨op, mode⟩ := pair
      have found : cpu.opcode op mode = some opcode := Cpu.decode_iff_opcode.1 row
      by_cases short : mode.length = 1
      · -- The opcode is all there is.
        obtain rfl : ⟨op, mode, none⟩ = inst := by simpa [Decoded.decode, row, short] using read
        simp [Cpu.encode, Decoded.length, found, short]
      · -- Else the opcode is found again, and so are the bytes of the operand.
        cases operand : Decoded.operandValue mode rest pc with
        | none => simp [Decoded.decode, row, short, operand] at read
        | some word =>
          obtain rfl : ⟨op, mode, some word⟩ = inst := by
            simpa [Decoded.decode, row, short, operand] using read
          have tail : operandBytes mode (wordValue word) pc = .ok (rest.take (mode.length - 1)) := by
            refine operandBytes_operandValue short operand fun relative byte head => ?_
            exact inside relative byte (by simpa [List.head?_eq_getElem?] using head)
          -- The opcode and the operand make up the length.
          have size : mode.length = mode.length - 1 + 1 := by
            have positive := mode.length_pos
            omega
          simp only [Cpu.encode, found, short, if_false, Option.map_some, tail, Decoded.length]
          rw [size, List.take_succ_cons]
          rfl

/-! ### Stretches of instructions -/

/-- The bytes of instructions one after another, the first of them at an address. Behind the end of
the address space the addresses start over. -/
def Cpu.encodeAll (cpu : Cpu) : List MachineInst → UInt16 → Except EncodeError (List UInt8)
  | [], _ => .ok []
  | inst :: others, pc => do
    let here ← cpu.encode inst.op inst.mode inst.value pc
    let rest ← cpu.encodeAll others (pc + UInt16.ofNat here.length)
    return here ++ rest

/-- Instructions read one after another to the end of the bytes, if each of them can be read. -/
def Decoded.decodeAll (cpu : Cpu) (bytes : List UInt8) (pc : UInt16) : Option (List Decoded) :=
  if bytes.isEmpty then some []
  else
    match decode cpu bytes pc with
    | none => none
    | some inst =>
      (decodeAll cpu (bytes.drop inst.length) (pc + UInt16.ofNat inst.length)).map (inst :: ·)
  termination_by bytes.length
  decreasing_by
    have positive := inst.mode.length_pos
    have present : 0 < bytes.length := by simpa [List.length_pos_iff] using ‹¬bytes.isEmpty = true›
    simp only [List.length_drop, Decoded.length]
    omega

/-- Instructions are read back one by one from their bytes. -/
theorem decodeAll_encodeAll {cpu : Cpu} {insts : List MachineInst} {pc : UInt16}
    {bytes : List UInt8} (encoded : cpu.encodeAll insts pc = .ok bytes) :
    Decoded.decodeAll cpu bytes pc = some (insts.map MachineInst.decoded) := by
  -- Each instruction tells its length, so that the next one is found where it was put.
  induction insts generalizing pc bytes with
  | nil =>
    cases encoded
    rw [Decoded.decodeAll]
    rfl
  | cons inst others ih =>
    simp only [Cpu.encodeAll, except_bind_eq_ok, except_pure_eq_ok] at encoded
    obtain ⟨here, first, rest, later, rfl⟩ := encoded
    have size : here.length = inst.mode.length := Cpu.encode_length first
    have positive := inst.mode.length_pos
    have present : ¬(here ++ rest).isEmpty := by
      cases here with
      | nil => simp at size; omega
      | cons => simp
    have behind : (here ++ rest).drop inst.decoded.length = rest := by
      rw [show inst.decoded.length = here.length from size.symm, List.drop_left]
    rw [Decoded.decodeAll, if_neg present, decode_encode first rest]
    simp only [behind]
    rw [show inst.decoded.length = here.length from size.symm, ih later]
    rfl

/-- Encoding and decoding undo each other, on both processors and at every address. An instruction
that is encoded takes as many bytes as its mode has, and is read back from them, whatever stands
behind, with its value reduced to what the operand holds. Instructions that are encoded one after
another are read back one by one. And an instruction that was read is encoded as the bytes it was
read from, unless it is a branch around the end of the address space. -/
theorem encode_decode_inverse (cpu : Cpu) (pc : UInt16) :
    (∀ (inst : MachineInst) (bytes : List UInt8),
      cpu.encode inst.op inst.mode inst.value pc = .ok bytes →
        bytes.length = inst.mode.length ∧
        ∀ rest, Decoded.decode cpu (bytes ++ rest) pc = some inst.decoded) ∧
    (∀ (insts : List MachineInst) (bytes : List UInt8), cpu.encodeAll insts pc = .ok bytes →
      Decoded.decodeAll cpu bytes pc = some (insts.map MachineInst.decoded)) ∧
    ∀ (bytes : List UInt8) (inst : Decoded), Decoded.decode cpu bytes pc = some inst →
      (inst.mode = .relative → ∀ byte ∈ bytes[1]?, StaysInside pc byte) →
      cpu.encode inst.op inst.mode (inst.value.map wordValue) pc =
        .ok (bytes.take inst.length) :=
  ⟨fun _ _ encoded => ⟨Cpu.encode_length encoded, decode_encode encoded⟩,
    fun _ _ encoded => decodeAll_encodeAll encoded,
    fun _ _ read inside => encode_decode read inside⟩

/-- Instructions around the end of the address space: a negative immediate, a branch to an address
that is given beyond the end, a jump, and a value that no operand holds. -/
def aroundTheEnd : List MachineInst :=
  [⟨.lda, .immediate, some (-1)⟩, ⟨.bra, .relative, some 0x10005⟩, ⟨.jmp, .absolute, some 0xFFFD⟩,
    ⟨.inx, .implied, some 7⟩]

/-- They are read back with the values that their bytes hold, and a branch that was read is encoded
as it was. -/
theorem aroundTheEnd_inverse :
    Cpu.cmos.encodeAll aroundTheEnd 0xFFFD =
        .ok [0xA9, 0xFF, 0x80, 0x04, 0x4C, 0xFD, 0xFF, 0xE8] ∧
      Decoded.decodeAll .cmos [0xA9, 0xFF, 0x80, 0x04, 0x4C, 0xFD, 0xFF, 0xE8] 0xFFFD =
        some [⟨.lda, .immediate, some 0xFF⟩, ⟨.bra, .relative, some 0x0005⟩,
          ⟨.jmp, .absolute, some 0xFFFD⟩, ⟨.inx, .implied, none⟩] ∧
      Decoded.decode .cmos [0x80, 0x04, 0x4C] 0xFFFF = some ⟨.bra, .relative, some 0x0005⟩ ∧
      Cpu.nmos.encode .bne .relative (some 0x8000) 0x8000 = .ok [0xD0, 0xFE] := by
  -- The code runs around the end of the address space, and its branch with it.
  have encoded : Cpu.cmos.encodeAll aroundTheEnd 0xFFFD =
      .ok [0xA9, 0xFF, 0x80, 0x04, 0x4C, 0xFD, 0xFF, 0xE8] := by
    rfl
  have branch : Cpu.cmos.encode .bra .relative (some 0x10005) 0xFFFF = .ok [0x80, 0x04] := by
    rfl
  refine ⟨encoded, (encode_decode_inverse .cmos 0xFFFD).2.1 _ _ encoded, ?_, ?_⟩
  · exact ((encode_decode_inverse .cmos 0xFFFF).1 ⟨.bra, .relative, some 0x10005⟩ _ branch).2 [0x4C]
  · refine (encode_decode_inverse .nmos 0x8000).2.2 [0xD0, 0xFE, 0x00]
      ⟨.bne, .relative, some 0x8000⟩ rfl fun _ byte second => ?_
    obtain rfl : 0xFE = byte := Option.some.inj second
    constructor <;> decide

end CrossAsm
