import CrossAsm.Text.Hex

/-! Fill patterns for bytes that are never written. -/

namespace CrossAsm

/-- A pattern of at least one byte, tiled from the start of its region. -/
structure Padding where
  /-- The bytes of one tile. -/
  bytes : List UInt8
  /-- A tile has a byte to give. -/
  nonempty : bytes ≠ []
  deriving DecidableEq

namespace Padding

/-- The pattern when none is asked for. -/
def default : Padding := ⟨[0xFF], by simp⟩

/-- The bytes of a number, least significant first and none for zero. -/
def littleEndian (n : Nat) : List UInt8 :=
  if n = 0 then [] else UInt8.ofNat n :: littleEndian (n / 256)
  termination_by n

/-- The little-endian bytes of a value, as many as it needs. -/
def ofValue (value : Int64) : Padding :=
  match littleEndian value.toUInt64.toNat with
  | [] => ⟨[0], by simp⟩
  | byte :: rest => ⟨byte :: rest, by simp⟩

/-- The bytes of a text, or a zero when it is empty. -/
def ofText (text : String) : Padding :=
  match text.toUTF8.toList with
  | [] => ⟨[0], by simp⟩
  | byte :: rest => ⟨byte :: rest, by simp⟩

/-- The fill byte at an offset from the start of the region. -/
def byteAt (padding : Padding) (offset : Nat) : UInt8 :=
  padding.bytes.get ⟨offset % padding.bytes.length,
    Nat.mod_lt _ (List.length_pos_iff.2 padding.nonempty)⟩

/-- The tile as it is shown. -/
def render (padding : Padding) : String :=
  Text.hexBytes padding.bytes

end Padding

end CrossAsm
