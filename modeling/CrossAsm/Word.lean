/-! Machine words, which hold sizes and addresses: a sum or a product that is too large for a word
starts again from zero. -/

namespace CrossAsm.Word

/-- The number of words. -/
def count : Nat :=
  0x10000000000000000

/-- A number of bytes that no memory holds. -/
def memory : Nat :=
  0x8000000000000000

/-- The sum of two words. -/
def add (a b : Nat) : Nat :=
  (a + b) % count

/-- The product of two words. -/
def mul (a b : Nat) : Nat :=
  (a * b) % count

/-- The last of a number of words, at least one, from a first one on. -/
def last (first size : Nat) : Nat :=
  (first + size - 1) % count

variable {a b first size : Nat}

/-- A sum that is a word is the sum. -/
theorem add_of_lt (less : a + b < count) : add a b = a + b :=
  Nat.mod_eq_of_lt less

/-- A product that is a word is the product. -/
theorem mul_of_lt (less : a * b < count) : mul a b = a * b :=
  Nat.mod_eq_of_lt less

/-- Words that end before they start again from zero end where they should. -/
theorem last_of_le (enough : first + size ≤ count) : last first size = first + size - 1 :=
  Nat.mod_eq_of_lt (Nat.lt_of_le_of_lt (Nat.sub_le_sub_right enough 1) (by decide))

end CrossAsm.Word
