/-! Hexadecimal text of numbers and bytes. -/

namespace CrossAsm.Text

/-- The upper-case hexadecimal digit of a number below sixteen. -/
def hexDigit (n : Nat) : Char :=
  if n < 10 then Char.ofNat (48 + n) else Char.ofNat (55 + n)

/-- Hexadecimal digits of a number, most significant first and none for zero. -/
def hexDigits (n : Nat) : List Char :=
  if n = 0 then [] else hexDigits (n / 16) ++ [hexDigit (n % 16)]
  termination_by n

/-- Upper-case hexadecimal text, zero-filled on the left to at least `width` digits. -/
def hex (width n : Nat) : String :=
  -- A zero has no digits of its own, so at least one place is always filled.
  let digits := hexDigits n
  String.ofList (List.replicate (max width 1 - digits.length) '0' ++ digits)

/-- Hexadecimal text of a 64-bit value, a negative one in two's complement. -/
def hexInt64 (width : Nat) (n : Int64) : String :=
  hex width n.toUInt64.toNat

/-- Upper-case hexadecimal text of a byte string, two digits a byte. -/
def hexBytes (bytes : List UInt8) : String :=
  String.join (bytes.map fun byte => hex 2 byte.toNat)

end CrossAsm.Text
