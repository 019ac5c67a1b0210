import CrossAsm.Compile
import CrossAsm.Proofs.Isa.Superset
import CrossAsm.Proofs.Steps

/-! Source that the NMOS processor reads is read the same way for the CMOS one, unless it has an
`inc` or `dec` of the word `a`, which the CMOS processor takes for its accumulator. -/

namespace CrossAsm

/-- Whether an operand is the word `a` alone, in either case. -/
def Operand.isBareA : Operand Expr → Bool
  | .address (.name word) => Text.lower word = "a"
  | _ => false

/-- Whether an instruction is an `inc` or `dec` whose operand is the word `a`. -/
def Instruction.stepsBareA (line : Instruction) : Bool :=
  (line.op = .inc || line.op = .dec) && line.operand.isBareA

/-- Whether an item is an `inc` or `dec` whose operand is the word `a`. -/
def Item.stepsBareA : Item → Bool
  | .instruction line => line.stepsBareA
  | _ => false

/-- The pieces of source have no `inc` or `dec` whose operand is the word `a`. -/
def LeavesAccumulator (inputs : List Input) : Prop :=
  ∀ stmts, scan .nmos inputs = .ok stmts → ∀ item, .item item ∈ stmts → item.stepsBareA = false

namespace Parse

variable {op : Op} {cursor after : Cursor}

/-- The word `a` is the accumulator for both processors or for neither, but for `inc` and `dec`. -/
theorem accumulator_iff {word : String}
    (plain : ((op = .inc || op = .dec) && (Operand.address (.name word)).isBareA) = false) :
    (Text.lower word = "a" ∧ (Cpu.cmos.opcode op .accumulator).isSome = true) ↔
      (Text.lower word = "a" ∧ (Cpu.nmos.opcode op .accumulator).isSome = true) := by
  refine and_congr_right fun bare => ⟨fun extended => ?_, (Cpu.cmos_covers _).opcode_isSome⟩
  -- The accumulator is new for `inc` and `dec` only, which do not have the word as an operand.
  obtain has | rfl | rfl := Cpu.accumulator_of_cmos extended
  · exact has
  · simp [Operand.isBareA, bare] at plain
  · simp [Operand.isBareA, bare] at plain

/-- An address or accumulator is read the same way. -/
theorem directOperand_superset {operand : Operand Expr}
    (ran : directOperand .nmos op cursor = .ok operand after)
    (plain : ((op = .inc || op = .dec) && operand.isBareA) = false) :
    directOperand .cmos op cursor = .ok operand after := by
  -- The same steps are made up to the word `a`.
  rw [directOperand, bind_eq_ok] at ran ⊢
  obtain ⟨e, afterExpr, readExpr, ran⟩ := ran
  refine ⟨e, afterExpr, readExpr, ?_⟩
  rw [bind_eq_ok] at ran ⊢
  obtain ⟨indexed, afterComma, readComma, ran⟩ := ran
  refine ⟨indexed, afterComma, readComma, ?_⟩
  cases indexed with
  | true => exact ran
  | false =>
    -- Without an index only a name may be the accumulator.
    cases e with
    | name word =>
      simp only [Bool.false_eq_true, if_false] at ran ⊢
      by_cases accumulator : Text.lower word = "a" ∧ (Cpu.nmos.opcode op .accumulator).isSome = true
      · rw [if_pos accumulator] at ran
        rwa [if_pos ⟨accumulator.1, (Cpu.cmos_covers _).opcode_isSome accumulator.2⟩]
      · rw [if_neg accumulator] at ran
        obtain ⟨rfl, rfl⟩ := pure_eq_ok.1 ran
        rw [if_neg fun extended => accumulator ((accumulator_iff plain).1 extended)]
        rfl
    | _ => exact ran

/-- An operand is read the same way. -/
theorem operand_superset {operand : Operand Expr}
    (ran : Parse.operand .nmos op cursor = .ok operand after)
    (plain : ((op = .inc || op = .dec) && operand.isBareA) = false) :
    Parse.operand .cmos op cursor = .ok operand after := by
  -- The same steps are made up to an operand without a hash or a parenthesis.
  rw [Parse.operand, bind_eq_ok] at ran ⊢
  obtain ⟨starts, afterLook, look, ran⟩ := ran
  refine ⟨starts, afterLook, look, ?_⟩
  cases starts with
  | false =>
    -- No operand follows.
    rw [if_neg Bool.false_ne_true] at ran ⊢
    exact ran
  | true =>
    rw [if_pos rfl, bind_eq_ok] at ran ⊢
    obtain ⟨hash, afterHash, readHash, ran⟩ := ran
    refine ⟨hash, afterHash, readHash, ?_⟩
    -- Behind a hash there is a value.
    cases hash with
    | true =>
      rw [if_pos rfl] at ran ⊢
      exact ran
    | false =>
      rw [if_neg Bool.false_ne_true, bind_eq_ok] at ran ⊢
      obtain ⟨paren, afterParen, readParen, ran⟩ := ran
      refine ⟨paren, afterParen, readParen, ?_⟩
      -- In parentheses the mode is an indirect one.
      cases paren with
      | true =>
        rw [if_pos rfl] at ran ⊢
        exact ran
      | false => exact directOperand_superset ran plain

/-- A statement that starts with a word is read the same way. -/
theorem wordStatement_superset {word : String} {pos : Pos} {items : List Item}
    (ran : wordStatement .nmos word pos cursor = .ok items after)
    (plain : ∀ item ∈ items, item.stepsBareA = false) :
    wordStatement .cmos word pos cursor = .ok items after := by
  -- The same steps are made up to the mnemonic.
  rw [wordStatement, bind_eq_ok] at ran ⊢
  obtain ⟨label, afterColon, readColon, ran⟩ := ran
  refine ⟨label, afterColon, readColon, ?_⟩
  -- A colon makes the word a label.
  cases label with
  | true => exact ran
  | false =>
    simp only [Bool.false_eq_true, if_false] at ran ⊢
    -- Only an instruction has to do with the processor.
    cases mnemonic : Op.parse? word with
    | none =>
      rw [mnemonic] at ran
      exact ran
    | some op =>
      rw [mnemonic] at ran
      simp only at ran ⊢
      -- The smaller processor has the instruction, and so the larger one has it.
      by_cases supported : Cpu.nmos.supports op = true
      · rw [if_pos supported, bind_eq_ok] at ran
        obtain ⟨operand, afterOperand, readOperand, ran⟩ := ran
        obtain ⟨rfl, rfl⟩ := pure_eq_ok.1 ran
        have plain : ((op = .inc || op = .dec) && operand.isBareA) = false :=
          plain _ List.mem_cons_self
        rw [if_pos ((Cpu.cmos_covers _).supports supported)]
        exact bind_eq_ok.2 ⟨_, _, operand_superset readOperand plain, rfl⟩
      · rw [if_neg supported] at ran
        exact (throw_eq_ok.1 ran).elim

/-- A statement is read the same way. -/
theorem statement_superset {items : List Item}
    (ran : statement .nmos cursor = .ok items after)
    (plain : ∀ item ∈ items, item.stepsBareA = false) :
    statement .cmos cursor = .ok items after := by
  -- The same steps are made up to the first word.
  rw [statement, bind_eq_ok] at ran ⊢
  obtain ⟨ahead, afterLook, look, ran⟩ := ran
  refine ⟨ahead, afterLook, look, ?_⟩
  -- At the end there is nothing to read.
  cases ahead with
  | none =>
    obtain ⟨_, _, failed, _⟩ := bind_eq_ok.1 ran
    cases failed
  | some token =>
    obtain ⟨_, _, seen, ran⟩ := bind_eq_ok.1 ran
    obtain ⟨rfl, rfl⟩ := pure_eq_ok.1 seen
    refine bind_eq_ok.2 ⟨_, _, rfl, ?_⟩
    -- Only a statement that starts with a word has to do with the processor.
    cases begins : token.lexeme with
    | ident word =>
      simp only [begins] at ran ⊢
      rw [bind_eq_ok] at ran ⊢
      obtain ⟨_, afterWord, readWord, ran⟩ := ran
      exact ⟨_, afterWord, readWord, wordStatement_superset ran plain⟩
    | glyph glyph =>
      simp only [begins] at ran ⊢
      cases glyph <;> exact ran
    | _ =>
      simp only [begins] at ran ⊢
      exact ran

end Parse

/-- Statements without an error among them are read the same way. -/
theorem Cursor.statements_superset {rounds : Nat} {cursor : Cursor} {items : List Item}
    (read : cursor.statements .nmos rounds = (items, []))
    (plain : ∀ item ∈ items, item.stepsBareA = false) :
    cursor.statements .cmos rounds = (items, []) := by
  -- By induction on the rounds, none of which fails.
  induction rounds generalizing cursor items with
  | zero => exact read
  | succ rounds ih =>
    rw [Cursor.statements] at read ⊢
    split at read
    · rename_i ended
      rwa [if_pos ended]
    · rename_i more
      rw [if_neg more]
      cases ran : Parse.statement .nmos (cursor.skip Lexeme.isSeparator) with
      | error e after =>
        rw [ran] at read
        cases read
      | ok first after =>
        simp only [ran, Prod.mk.injEq] at read
        obtain ⟨rfl, none⟩ := read
        -- The first statement and those behind it have none of the instructions.
        have plainFirst : ∀ item ∈ first, item.stepsBareA = false :=
          fun item mem => plain item (List.mem_append_left _ mem)
        have others := ih (Prod.ext rfl none) fun item mem =>
          plain item (List.mem_append_right _ mem)
        simp only [Parse.statement_superset ran plainFirst, others]

/-- A chunk is read the same way. -/
theorem Chunk.stmts_superset {chunk : Chunk} {stmts : List Stmt}
    (read : chunk.stmts .nmos = .ok stmts)
    (plain : ∀ item, .item item ∈ stmts → item.stepsBareA = false) :
    chunk.stmts .cmos = .ok stmts := by
  -- Without errors the statements are the items that were read.
  unfold Chunk.stmts at read ⊢
  split at read
  · rename_i items parsed
    cases read
    -- Nothing else is among the statements than the items that were read.
    have plain : ∀ item ∈ items, item.stepsBareA = false :=
      fun item mem => plain item (List.mem_map_of_mem mem)
    have same : parse .cmos (Token.ofText chunk.file chunk.row chunk.text) = (items, []) :=
      Cursor.statements_superset parsed plain
    rw [same]
  · cases read

/-- Pieces of source are read the same way. -/
theorem scan_superset {inputs : List Input} {stmts : List Stmt}
    (read : scan .nmos inputs = .ok stmts)
    (plain : ∀ item, .item item ∈ stmts → item.stepsBareA = false) :
    scan .cmos inputs = .ok stmts := by
  -- By induction on the pieces, of which only code is read.
  induction inputs generalizing stmts with
  | nil => exact read
  | cons input others ih =>
    rw [scan, except_bind_eq_ok] at read ⊢
    obtain ⟨here, readHere, read⟩ := read
    rw [except_bind_eq_ok] at read
    obtain ⟨rest, readRest, read⟩ := read
    obtain rfl := except_pure_eq_ok.1 read
    -- The first piece and those behind it have none of the instructions.
    have plainHere : ∀ item, .item item ∈ here → item.stepsBareA = false :=
      fun item mem => plain item (List.mem_append_left _ mem)
    have sameRest : scan .cmos others = .ok rest :=
      ih readRest fun item mem => plain item (List.mem_append_right _ mem)
    have sameHere : input.stmts .cmos = .ok here := by
      cases input with
      | code chunk => exact Chunk.stmts_superset readHere plainHere
      | _ => exact readHere
    exact ⟨here, sameHere, except_bind_eq_ok.2 ⟨rest, sameRest, rfl⟩⟩

end CrossAsm
