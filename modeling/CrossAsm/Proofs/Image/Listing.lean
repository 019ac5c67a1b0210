import CrossAsm.Image.Listing
import CrossAsm.Proofs.Layout.Packing

/-! The listing of an image of instructions. Where it stops is guessed from a run of equal bytes at
the end of a region, whether these are fill or not: the rows begin with all instructions that end
before the run, and rows and run together make up the region. -/

namespace CrossAsm

/-! ### Code in a region -/

/-- A piece is an instruction, and the value of its operand is the one that is handed to the
encoder. -/
def Piece.Encodes (addresses : Addresses) (piece : Piece) (inst : MachineInst) : Prop :=
  ∃ line, piece.content = .instruction line inst.mode ∧ inst.op = line.op ∧
    Deferred.operandValue addresses line = .ok (some inst.value)

/-- Instructions that stand one after another are encoded one after another. -/
theorem Piece.Stacked.encodeAll {session : Session} {addresses : Addresses} {org start stop : Nat}
    {pieces : List Piece} {bytesOf : Piece → List UInt8} (stacked : Piece.Stacked start pieces stop)
    (code : ∀ piece ∈ pieces, ∃ line mode, piece.content = .instruction line mode)
    (assembles : ∀ piece ∈ pieces, piece.content.Assembles session addresses
      (UInt16.ofNat (org + piece.slot.offset)) (bytesOf piece)) :
    ∃ insts, List.Forall₂ (Piece.Encodes addresses) pieces insts ∧
      session.cpu.encodeAll insts (UInt16.ofNat (org + start)) = .ok (pieces.flatMap bytesOf) := by
  -- By induction on the pieces: each one starts where the encoding has come to.
  induction pieces generalizing start with
  | nil => exact ⟨[], .nil, rfl⟩
  | cons piece others ih =>
    obtain ⟨rfl, rest⟩ := stacked
    obtain ⟨insts, later, encoded⟩ := ih rest
      (fun other inside => code other (List.mem_cons_of_mem _ inside))
      (fun other inside => assembles other (List.mem_cons_of_mem _ inside))
    obtain ⟨line, mode, content⟩ := code piece List.mem_cons_self
    have here := assembles piece List.mem_cons_self
    have size := here.length
    rw [content] at here
    cases here with
    | @instruction _ _ value _ known first =>
      refine ⟨⟨line.op, mode, value⟩ :: insts, .cons ⟨line, content, rfl, known⟩ later, ?_⟩
      -- The next instruction starts where this one ends.
      have next : UInt16.ofNat (org + (piece.slot.offset + piece.size)) =
          UInt16.ofNat (org + piece.slot.offset) + UInt16.ofNat (bytesOf piece).length := by
        rw [size, ← UInt16.ofNat_add, Nat.add_assoc]
        rfl
      rw [next] at encoded
      simp only [Cpu.encodeAll, except_bind_eq_ok, except_pure_eq_ok]
      exact ⟨_, first, _, encoded, List.flatMap_cons.symm⟩

/-- Whether a statement puts nothing but instructions into a region. -/
def Stmt.codeOnly : Stmt → Bool
  | .item (.var var) => var.init.isNone
  | .item (.directive (.incbin ..) _) => false
  | .item (.directive (.align _) _) => false
  | _ => true

namespace Stmt

variable {s : Stmt}

/-- Such a statement is no alignment. -/
theorem aligns_of_codeOnly (bare : s.codeOnly = true) : s.aligns = false := by
  -- Alignments are among the statements that the check refuses.
  unfold aligns
  split
  · cases bare
  · rfl

/-- What such a statement puts into a region is an instruction. -/
theorem content?_of_codeOnly (bare : s.codeOnly = true) {content : Content}
    (has : s.content? = some content) : ∃ line mode, content = .instruction line mode := by
  -- Contents are instructions, variables with a value, or vectors; only the first are left.
  unfold content? at has
  split at has
  · obtain ⟨mode, -, rfl⟩ := Option.map_eq_some_iff.1 has
    exact ⟨_, mode, rfl⟩
  · rename_i var
    split at has
    · rename_i filled
      simp only [codeOnly, Option.isNone_iff_eq_none] at bare
      simp [bare] at filled
    · cases has
  · cases bare
  · cases has

end Stmt

namespace Layout

variable {session : Session} {state state' : Layout} {pieces : List Piece}

/-- Only a variable with initial contents is put on record in ROM. -/
theorem Step.data {s : Stmt} (step : Step session state s state') (bare : s.codeOnly = true) :
    state'.data = state.data := by
  cases step with
  | begin | finish | label | fixed | free | request | incbin | openWindow | closeWindow => rfl
  | filled full =>
    -- Such a variable is not only code.
    simp only [Stmt.codeOnly, Option.isNone_iff_eq_none] at bare
    simp [bare] at full
  | instruction _ _ _ tried => exact (retry_rests tried).data
  | vector tried => exact (retry_rests tried).data

/-- A walk over nothing but code puts nothing on record in ROM. -/
theorem walk_data {stmts : List Stmt} (bare : ∀ s ∈ stmts, s.codeOnly = true)
    (ran : walk session stmts state = .ok () state') : state'.data = state.data := by
  -- Statement by statement, none of which adds to the record.
  induction stmts generalizing state with
  | nil =>
    rw [walk, pure_eq_ok] at ran
    rw [ran.2]
  | cons first others ih =>
    simp only [walk, bind_eq_ok] at ran
    obtain ⟨_, next, stepped, ran⟩ := ran
    rw [ih (fun s inside => bare s (List.mem_cons_of_mem _ inside)) ran,
      (stmt_step stepped).data (bare first List.mem_cons_self)]

/-- Each statement that is visited is one of those that are walked over. -/
theorem mem_of_visits {stmts : List Stmt} {before : Layout} {s : Stmt}
    (met : (before, s) ∈ visits session stmts state) : s ∈ stmts := by
  -- The visits go through the list and stop where a statement fails.
  induction stmts generalizing state with
  | nil => cases met
  | cons first others ih =>
    simp only [visits, List.mem_cons, Prod.mk.injEq] at met
    rcases met with ⟨-, rfl⟩ | later
    · exact List.mem_cons_self
    · split at later
      · exact List.mem_cons_of_mem _ (ih later)
      · cases later

/-- The pieces of code are instructions. -/
theorem content_of_codeOnly {stmts : List Stmt} (bare : ∀ s ∈ stmts, s.codeOnly = true)
    {piece : Piece} (met : piece ∈ piecesFrom session stmts state) :
    ∃ line mode, piece.content = .instruction line mode := by
  -- A piece comes of the statement that was visited there.
  obtain ⟨⟨before, s⟩, visited, put⟩ := List.mem_filterMap.1 met
  obtain ⟨content, has, put⟩ := Option.bind_eq_some_iff.1 put
  obtain ⟨opened, -, rfl⟩ := Option.map_eq_some_iff.1 put
  exact Stmt.content?_of_codeOnly (bare s (mem_of_visits visited)) has

end Layout

/-! ### Rows -/

/-- An instruction is read from bytes that are all there. -/
theorem Decoded.length_le {cpu : Cpu} {bytes : List UInt8} {pc : UInt16} {inst : Decoded}
    (read : decode cpu bytes pc = some inst) : inst.length ≤ bytes.length := by
  -- The opcode is there, or there would be nothing to read; the operand is asked for explicitly.
  cases bytes with
  | nil => cases read
  | cons opcode rest =>
    cases row : cpu.decode opcode with
    | none => simp [decode, row] at read
    | some pair =>
      obtain ⟨op, mode⟩ := pair
      by_cases short : mode.length = 1
      · obtain rfl : ⟨op, mode, none⟩ = inst := by simpa [decode, row, short] using read
        simp [length, short]
      · cases operand : operandValue mode rest pc with
        | none => simp [decode, row, short, operand] at read
        | some word =>
          obtain rfl : ⟨op, mode, some word⟩ = inst := by
            simpa [decode, row, short, operand] using read
          -- The operand was read from the byte or the two bytes that it takes.
          simp only [length, List.length_cons]
          unfold operandValue at operand
          split at operand
          · simp [*]
          · simp [*]
          · cases operand

/-- A run of equal bytes at the end is no longer than the bytes are. -/
theorem trailingFill_le (bytes : List UInt8) : trailingFill bytes ≤ bytes.length := by
  -- The run is taken from the end, and it is not shown at all or shown whole.
  have run : tailRun bytes ≤ bytes.length := by
    unfold tailRun
    split
    · exact Nat.zero_le _
    · rename_i last _
      have taken := (List.takeWhile_prefix (· == last) (l := bytes.reverse)).length_le
      simpa using taken
  unfold trailingFill
  split
  · exact run
  · exact Nat.zero_le _

namespace Listing

variable {image : Image} {cpu : Cpu}

/-- The row of an instruction at an address. -/
def codeRow (image : Image) (address : Nat) (inst : Decoded) : Row :=
  let address := UInt16.ofNat address
  ⟨labelLines image address ++ [addressField address.toNat ++ inst.renderColoured], inst.length⟩

/-- The rows of instructions one after another, the first of them at an address. -/
def codeRows (image : Image) : Nat → List Decoded → List Row
  | _, [] => []
  | address, inst :: others =>
    codeRow image address inst :: codeRows image (address + inst.length) others

/-- The first of some instructions, as many as end within a number of bytes. -/
def endingWithin : Nat → List Decoded → List Decoded
  | _, [] => []
  | room, inst :: others =>
    if inst.length ≤ room then inst :: endingWithin (room - inst.length) others else []

/-- All of the instructions end within as many bytes as they take. -/
theorem endingWithin_of_le {room : Nat} {insts : List Decoded}
    (enough : total (insts.map Decoded.length) ≤ room) : endingWithin room insts = insts := by
  -- Each instruction leaves enough room for those behind it.
  induction insts generalizing room with
  | nil => rfl
  | cons inst others ih =>
    rw [List.map_cons, total_cons] at enough
    rw [endingWithin, if_pos (by omega), ih (by omega)]

/-- A row takes at least one byte, and none of those behind the bytes that are shown. -/
theorem row_width (plain : image.data = []) (cpu : Cpu) (address : UInt16) (rest : List UInt8)
    {used : Nat} (more : 0 < used) :
    0 < (row image cpu address rest used).width ∧
      (row image cpu address rest used).width ≤ used := by
  -- A row is an instruction that was read, or one byte.
  have absent : dataAt image address = none := by simp [dataAt, plain]
  simp only [row, absent]
  split
  · -- An instruction is read only from bytes that are shown.
    rename_i inst read
    have inside := Decoded.length_le read
    rw [List.length_take] at inside
    exact ⟨inst.mode.length_pos, by simp only; omega⟩
  · exact ⟨Nat.one_pos, more⟩

/-- The rows take as many bytes as are shown. -/
theorem total_width_rowsWithin (plain : image.data = []) {count address used : Nat}
    {rest : List UInt8} (enough : used ≤ count) :
    total ((rowsWithin image cpu count address rest used).map Row.width) = used := by
  -- The induction is on the number of rows that are allowed, and each row takes a byte.
  induction count generalizing address rest used with
  | zero =>
    obtain rfl : used = 0 := by omega
    rfl
  | succ count ih =>
    unfold rowsWithin
    split
    · rename_i nothing
      rw [nothing]
      rfl
    · rename_i more
      obtain ⟨positive, inside⟩ :=
        row_width plain cpu (UInt16.ofNat address) rest (Nat.pos_of_ne_zero more)
      simp only [List.map_cons, total_cons]
      rw [ih (by omega)]
      omega

/-- The rows of bytes that begin with instructions begin with those that end before the bytes that
are not shown. -/
theorem codeRows_prefix_rowsWithin (plain : image.data = []) {insts : List MachineInst}
    {count address used : Nat} {code : List UInt8} (enough : used ≤ count)
    (encoded : cpu.encodeAll insts (UInt16.ofNat address) = .ok code) (rest : List UInt8) :
    codeRows image address (endingWithin used (insts.map MachineInst.decoded)) <+:
      rowsWithin image cpu count address (code ++ rest) used := by
  -- The induction is on the instructions; each one is read back, whatever stands behind it.
  induction insts generalizing count address used code with
  -- No instructions have no rows.
  | nil => exact List.nil_prefix
  | cons inst others ih =>
    simp only [Cpu.encodeAll, except_bind_eq_ok, except_pure_eq_ok] at encoded
    obtain ⟨here, first, later, encoded, rfl⟩ := encoded
    have size : here.length = inst.decoded.length := Cpu.encode_length first
    have positive : 0 < inst.decoded.length := inst.mode.length_pos
    rw [List.map_cons, endingWithin]
    -- The first instruction has a row if it ends before the bytes that are not shown.
    split
    · rename_i fits
      obtain ⟨count, rfl⟩ : ∃ smaller, count = smaller + 1 := ⟨count - 1, by omega⟩
      have read : Decoded.decode cpu ((here ++ later ++ rest).take used) (UInt16.ofNat address) =
          some inst.decoded := by
        rw [List.append_assoc, List.take_append, List.take_of_length_le (by omega)]
        exact decode_encode first _
      have absent : dataAt image (UInt16.ofNat address) = none := by simp [dataAt, plain]
      have shown : row image cpu (UInt16.ofNat address) (here ++ later ++ rest) used =
          codeRow image address inst.decoded := by
        simp only [row, absent, read, codeRow]
      -- What stands behind it is what the others were written as.
      have behind : (here ++ later ++ rest).drop inst.decoded.length = later ++ rest := by
        rw [List.append_assoc, ← size, List.drop_left]
      rw [size, ← UInt16.ofNat_add] at encoded
      rw [rowsWithin, if_neg (by omega)]
      simp only [shown, codeRows, codeRow, behind]
      exact (List.prefix_cons_inj _).2 (ih (by omega) encoded)
    · -- An instruction that does not end there ends the rows.
      exact List.nil_prefix

/-- What the listing of a region shows of the instructions that it starts with. -/
structure Shows (image : Image) (cpu : Cpu) (region : RegionImage) (insts : List MachineInst) :
    Prop where
  /-- The region holds the instructions, and its fill behind them. -/
  code : ∃ code count, cpu.encodeAll insts (UInt16.ofNat region.org) = .ok code ∧
    region.bytes = code ++ RegionImage.fillAfter { region with bytes := code } count
  /-- The rows begin with the instructions that end before the run that is shown as fill. -/
  begins : codeRows image region.org
    (endingWithin (region.bytes.length - trailingFill region.bytes)
      (insts.map MachineInst.decoded)) <+: rows image cpu region
  /-- They begin with all instructions if the run starts behind the last one. -/
  whole : total (insts.map (·.mode.length)) + trailingFill region.bytes ≤ region.bytes.length →
    codeRows image region.org (insts.map MachineInst.decoded) <+: rows image cpu region
  /-- The rows and what is shown as fill make up the region. -/
  widths : total ((rows image cpu region).map Row.width) + trailingFill region.bytes =
    region.bytes.length

/-- A region that starts with instructions is shown with them. -/
theorem shows_of_encodeAll (plain : image.data = []) {region : RegionImage}
    {insts : List MachineInst} {code : List UInt8} {count : Nat}
    (encoded : cpu.encodeAll insts (UInt16.ofNat region.org) = .ok code)
    (starts : region.bytes = code ++ RegionImage.fillAfter { region with bytes := code } count) :
    Shows image cpu region insts := by
  -- The rows up to the fill are those of a listing of the code alone.
  have begins : codeRows image region.org
      (endingWithin (region.bytes.length - trailingFill region.bytes)
        (insts.map MachineInst.decoded)) <+: rows image cpu region := by
    unfold rows
    rw [starts]
    exact codeRows_prefix_rowsWithin plain (Nat.le_refl _) encoded _
  refine ⟨⟨code, count, encoded, starts⟩, begins, fun room => ?_, ?_⟩
  · rw [endingWithin_of_le] at begins
    · exact begins
    · rw [List.map_map]
      exact Nat.le_sub_of_add_le room
  · have inside := trailingFill_le region.bytes
    rw [rows, total_width_rowsWithin plain (Nat.le_refl _)]
    omega

end Listing

/-- The listing of an image of instructions shows them. The rows of each region begin with exactly
those instructions of the region, in their order, that end before the run of equal bytes that is shown
as fill: each at its address, with its mnemonic, its mode and its operand. And the rows together with
the run make up the region. -/
theorem listing_shows_code {session : Session} {stmts : List Stmt} {image : Image}
    (returned : layout session stmts = .ok image) (bare : ∀ s ∈ stmts, s.codeOnly = true) :
    ∃ final, Layout.walk session stmts {} = .ok () final ∧
      ∀ bank ∈ image.banks, ∀ index region, bank.regions[index]? = some region →
        ∃ insts,
          List.Forall₂ (Piece.Encodes final.addresses)
            (Layout.piecesIn session stmts bank.number index) insts ∧
          Listing.Shows image session.cpu region insts := by
  -- The pieces of a region stand one after another from its origin, and so do their encodings.
  obtain ⟨last, ran, rfl⟩ := Layout.layout_eq_ok.1 returned
  obtain ⟨final, assembled⟩ := Layout.run_assembled ran
  have packed := Layout.walk_packed Packed.start
    (fun s inside => Stmt.aligns_of_codeOnly (bare s inside)) (Tracks.start session)
    assembled.walked
  have plain : last.image.data = [] :=
    assembled.records.2.trans (Layout.walk_data bare assembled.walked)
  refine ⟨final, assembled.walked, fun bank inside index region found => ?_⟩
  obtain ⟨bytesOf, stop, stacked, assembles, starts⟩ :=
    assembled.exists_stacked packed inside found
  obtain ⟨insts, each, encoded⟩ := stacked.encodeAll
    (fun piece listed => Layout.content_of_codeOnly bare (List.mem_filter.1 listed).1) assembles
  -- The fill starts where the last instruction ends.
  have ends := stacked.length_flatMap fun piece listed => (assembles piece listed).length
  rw [Nat.zero_add] at ends
  rw [← ends] at starts
  exact ⟨insts, each, Listing.shows_of_encodeAll plain encoded starts⟩

/-- One region at an address, with lines of code in it. -/
def codeAt (org : Nat) (maxsize : Option Nat) (lines : List Stmt) : List Stmt :=
  .item (.directive (.romOrg org maxsize) default) :: lines

/-- The line of an instruction. -/
def codeLine (op : Op) (operand : Operand Expr) (mode : Mode) : Stmt :=
  .item (.instruction ⟨op, operand, some mode, .global, default⟩)

/-- An image with a single region in a single bank. -/
structure Image.Single (image : Image) (bank : BankImage) (region : RegionImage) : Prop where
  /-- There is no other bank. -/
  banks : image.banks = [bank]
  /-- There is no other region. -/
  regions : bank.regions = [region]

/-- The banks of an image, each with the starts and the bytes of its regions. -/
def Image.outline (image : Image) : List (Nat × List (Nat × List UInt8)) :=
  image.banks.map fun bank =>
    (bank.number, bank.regions.map fun region => (region.org, region.bytes))

/-- An outline with one region tells all about the bytes. -/
theorem Image.exists_single {image : Image} {number org : Nat} {bytes : List UInt8}
    (seen : image.outline = [(number, [(org, bytes)])]) :
    ∃ bank region, image.Single bank region ∧ bank.number = number ∧ region.org = org ∧
      region.bytes = bytes := by
  -- The outline has one entry for each bank and one for each region.
  obtain ⟨bank, banks, same⟩ := List.map_eq_singleton_iff.1 seen
  obtain ⟨number, regions⟩ := Prod.mk.inj same
  obtain ⟨region, only, same⟩ := List.map_eq_singleton_iff.1 regions
  obtain ⟨org, bytes⟩ := Prod.mk.inj same
  exact ⟨bank, region, ⟨banks, only⟩, number, org, bytes⟩

/-- A load, and a jump back to itself, in a region of nine bytes. -/
def loadAndJump : List Stmt :=
  codeAt 0x8000 (some 9) [codeLine .lda (.immediate (.number 5)) .immediate,
    .item (.label ⟨"loop", default⟩), codeLine .jmp (.address (.ref "loop")) .absolute]

/-- Both instructions are shown, and the four bytes behind them as fill. -/
theorem loadAndJump_shown :
    ∃ image bank region insts, layout { cpu := .nmos } loadAndJump = .ok image ∧
      image.Single bank region ∧
      region.bytes = [0xA9, 0x05, 0x4C, 0x02, 0x80, 0xFF, 0xFF, 0xFF, 0xFF] ∧
      trailingFill region.bytes = 4 ∧ insts.length = 2 ∧
      Listing.Shows image .nmos region insts := by
  -- Only the bytes and the number of instructions are computed.
  have evaluated : (layout { cpu := .nmos } loadAndJump).toOption.map Image.outline =
      some [(0, [(0x8000, [0xA9, 0x05, 0x4C, 0x02, 0x80, 0xFF, 0xFF, 0xFF, 0xFF])])] := by
    cbv
  have two : (Layout.piecesIn { cpu := .nmos } loadAndJump 0 0).length = 2 := by
    cbv
  obtain ⟨image, returned, seen⟩ := Layout.exists_of_evaluated evaluated
  obtain ⟨bank, region, single, number, org, bytes⟩ := Image.exists_single seen
  obtain ⟨final, -, all⟩ := listing_shows_code returned (by decide)
  obtain ⟨insts, each, shown⟩ :=
    all bank (by simp [single.banks]) 0 region (by simp [single.regions])
  rw [number] at each
  exact ⟨image, bank, region, insts, returned, single, bytes, by rw [bytes]; decide,
    each.length_eq.symm.trans two, shown⟩

/-- Four times the instruction that does nothing. -/
def fourNops : List Stmt :=
  codeAt 0x8000 none (List.replicate 4 (codeLine .nop .none .implied))

/-- Instructions of one and the same byte at the end of a region are taken for fill: of the four the
listing shows none. -/
theorem fourNops_hidden :
    (∀ s ∈ fourNops, s.codeOnly = true) ∧
      ∃ image bank region insts, layout { cpu := .nmos } fourNops = .ok image ∧
        image.Single bank region ∧ insts = List.replicate 4 ⟨.nop, .implied, none⟩ ∧
        Cpu.nmos.encodeAll insts (UInt16.ofNat region.org) = .ok region.bytes ∧
        Listing.rows image .nmos region = [] ∧
        ¬Listing.codeRows image region.org (insts.map MachineInst.decoded) <+:
          Listing.rows image .nmos region := by
  -- The layout is evaluated once, and its bytes are all equal.
  refine ⟨by decide, ?_⟩
  have evaluated : (layout { cpu := .nmos } fourNops).toOption.map Image.outline =
      some [(0, [(0x8000, [0xEA, 0xEA, 0xEA, 0xEA])])] := by
    cbv
  obtain ⟨image, returned, seen⟩ := Layout.exists_of_evaluated evaluated
  obtain ⟨bank, region, single, -, org, bytes⟩ := Image.exists_single seen
  -- All bytes of the region are in the run, so that none is left for rows.
  have nothing : Listing.rows image .nmos region = [] := by
    unfold Listing.rows
    rw [bytes]
    rfl
  refine ⟨image, bank, region, _, returned, single, rfl, ?_, nothing, ?_⟩
  · rw [org, bytes]
    rfl
  · rw [nothing, List.prefix_nil]
    intro empty
    cases empty

end CrossAsm
