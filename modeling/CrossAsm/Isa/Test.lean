import CrossAsm.Text.Ascii
import CrossAsm.Isa.Op

/-! Branch tests: condition words, their flags, and the branch each one becomes. -/

namespace CrossAsm

/-- A processor status flag that a conditional branch can test. -/
inductive Flag where
  | n | v | c | z
  deriving DecidableEq

/-- The flag's letter. -/
def Flag.name : Flag → String
  | .n => "N"
  | .v => "V"
  | .c => "C"
  | .z => "Z"

/-- The conditional branch taken when the flag is in the given state. -/
def Flag.branch : Flag → Bool → Op
  | .n, false => .bpl
  | .n, true => .bmi
  | .v, false => .bvc
  | .v, true => .bvs
  | .c, false => .bcc
  | .c, true => .bcs
  | .z, false => .bne
  | .z, true => .beq

/-- A condition word, as in `if (not carry)`. -/
inductive Condition where
  | plus | positive | greater
  | minus | negative | less
  | overflow
  | carry
  | nonzero | set | true | one
  | equal | zero | false | unset | clear
  deriving DecidableEq

namespace Condition

/-- Every condition word, in declaration order. -/
def all : List Condition :=
  [.plus, .positive, .greater, .minus, .negative, .less, .overflow, .carry, .nonzero, .set, .true,
   .one, .equal, .zero, .false, .unset, .clear]

/-- The word a condition is shown as. -/
def name : Condition → String
  | .plus => "plus"
  | .positive => "positive"
  | .greater => "greater"
  | .minus => "minus"
  | .negative => "negative"
  | .less => "less"
  | .overflow => "overflow"
  | .carry => "carry"
  | .nonzero => "nonzero"
  | .set => "set"
  | .true => "true"
  | .one => "one"
  | .equal => "equal"
  | .zero => "zero"
  | .false => "false"
  | .unset => "unset"
  | .clear => "clear"

/-- The words a condition is read from: its name, and a digit for `one` and `zero`. -/
def spellings : Condition → List String
  | .one => ["one", "1"]
  | .zero => ["zero", "0"]
  | condition => [condition.name]

/-- Reads a condition word in any mix of letter cases. -/
def parse? (word : String) : Option Condition :=
  all.find? fun condition => condition.spellings.contains (Text.lower word)

/-- The flag the condition tests, and the state of it under which the condition holds. -/
def flag : Condition → Flag × Bool
  | .plus | .positive | .greater => (.n, Bool.false)
  | .minus | .negative | .less => (.n, Bool.true)
  | .overflow => (.v, Bool.true)
  | .carry => (.c, Bool.true)
  | .nonzero | .set | .true | .one => (.z, Bool.false)
  | .equal | .zero | .false | .unset | .clear => (.z, Bool.true)

end Condition

/-- Whether a test asks for its condition or for the opposite. -/
inductive Polarity where
  | is | not
  deriving DecidableEq

namespace Polarity

/-- The word a polarity is shown as. -/
def name : Polarity → String
  | .is => "is"
  | .not => "not"

/-- Reads a polarity word in any mix of letter cases. -/
def parse? (word : String) : Option Polarity :=
  match Text.lower word with
  | "is" | "has" => some .is
  | "not" | "no" => some .not
  | _ => none

/-- The opposite polarity. -/
def flip : Polarity → Polarity
  | .is => .not
  | .not => .is

end Polarity

/-- Whether a branch may rely on its target being within reach of a short branch. -/
inductive Distance where
  | near | far
  deriving DecidableEq

namespace Distance

/-- The word a distance is shown as. -/
def name : Distance → String
  | .near => "near"
  | .far => "far"

/-- Reads a distance word in any mix of letter cases. -/
def parse? (word : String) : Option Distance :=
  match Text.lower word with
  | "near" => some .near
  | "far" => some .far
  | _ => none

end Distance

/-- A full branch test: a distance, a polarity and a condition. -/
structure Test where
  /-- How far the branch target may lie. -/
  distance : Distance
  /-- Whether the condition is asked for or denied. -/
  polarity : Polarity
  /-- The condition word. -/
  condition : Condition
  deriving DecidableEq

namespace Test

/-- The near, affirmative test of a condition. -/
def ofCondition (condition : Condition) : Test :=
  ⟨.near, .is, condition⟩

/-- The same test with the far form of branch. -/
def far (test : Test) : Test :=
  { test with distance := .far }

/-- The test that holds exactly when this one fails. -/
def not (test : Test) : Test :=
  { test with polarity := test.polarity.flip }

/-- The flag tested, and the state it must have for the whole test to hold. -/
def flag (test : Test) : Flag × Bool :=
  let (flag, state) := test.condition.flag
  match test.polarity with
  | .is => (flag, state)
  | .not => (flag, !state)

/-- The branch taken when the test holds. -/
def branchIfHolds (test : Test) : Op :=
  test.flag.1.branch test.flag.2

/-- The branch taken when the test fails. -/
def branchIfFails (test : Test) : Op :=
  test.flag.1.branch (!test.flag.2)

/-- The test as it is written, without the words that are the default. -/
def render (test : Test) : String :=
  (match test.distance with | .far => "far " | .near => "") ++
  (match test.polarity with | .not => "not " | .is => "") ++
  test.condition.name

end Test

end CrossAsm
