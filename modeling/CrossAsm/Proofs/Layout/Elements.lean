import Mathlib.Data.List.Forall2
import Mathlib.Data.List.Pairwise
import Mathlib.Data.Nat.Digits.Defs
import CrossAsm.Proofs.Isa.RoundTrip
import CrossAsm.Proofs.Layout.TwoPass

/-! Lists of initial values in an image: the values of a variable stand one after another in the bytes
that were reserved for it, each in as many bytes as the width of an element, but never in more than the
eight that a value has. -/

namespace CrossAsm

/-! ### Values as bytes -/

/-- Bytes that are a number in two's complement, the lowest byte first. -/
structure Encodes (width : Nat) (value : Int) (bytes : List UInt8) : Prop where
  /-- There are as many bytes as the width says. -/
  length : bytes.length = width
  /-- The bytes are the digits of the number, as far as they go. -/
  digits : ((Nat.ofDigits 256 (bytes.map UInt8.toNat) : Nat) : Int) = value % 256 ^ width

/-- The low bytes of a number are the number in two's complement. -/
theorem encodes_lowBytes (width : Nat) (value : Int) : Encodes width value (lowBytes width value) := by
  -- One byte is taken off, and the others are those of what is left.
  induction width generalizing value with
  | zero =>
    refine ⟨rfl, ?_⟩
    rw [Int.pow_zero, Int.emod_one]
    rfl
  | succ width ih =>
    obtain ⟨length, digits⟩ := ih (value / 256)
    -- A number modulo a power of 256 is its lowest byte, and behind it what is left of the number.
    have split : value % (256 * 256 ^ width) = value % 256 + 256 * (value / 256 % 256 ^ width) := by
      rw [Int.emod_def value (256 * _), Int.emod_def (value / 256), Int.emod_def value 256,
        ← Int.ediv_ediv_of_nonneg (by decide)]
      ring
    refine ⟨by rw [lowBytes, List.length_cons, length], ?_⟩
    rw [lowBytes, List.map_cons, Nat.ofDigits_cons, Int.pow_succ', split, ← digits,
      ← toNat_lowByte]
    push_cast
    rfl

/-- A value takes as many bytes as it is given, and at most eight. -/
theorem encodes_littleEndian (width : Nat) (value : Int64) :
    Encodes (min width 8) value.toInt (littleEndian width value) :=
  encodes_lowBytes _ _

/-- Values one after another in a run of bytes, each in as many bytes as the width says, and zeros
behind the last one. -/
structure LaidOut (width size : Nat) (values : List Int64) (bytes : List UInt8) : Prop where
  /-- There are as many bytes as the size says. -/
  length : bytes.length = size
  /-- Every value that lies inside the run stands in its place. -/
  element : ∀ i value, values[i]? = some value → (i + 1) * width ≤ size →
    Encodes width value.toInt ((bytes.drop (i * width)).take width)
  /-- Behind the last value there is nothing. -/
  zeros : ∀ k < size, values.length * width ≤ k → bytes[k]? = some 0

/-- All values together take their number times what one of them takes. -/
theorem length_flatMap_littleEndian (width : Nat) (values : List Int64) :
    (values.flatMap (littleEndian width)).length = values.length * min width 8 := by
  -- Every value takes the same number of bytes.
  induction values with
  | nil => simp
  | cons value others ih =>
    rw [List.flatMap_cons, List.length_append, ih, (encodes_littleEndian width value).length,
      List.length_cons, Nat.succ_mul, Nat.add_comm]

/-- A value stands behind as many others as come before it. -/
theorem take_drop_flatMap_littleEndian (width : Nat) {values : List Int64} {i : Nat} {value : Int64}
    (found : values[i]? = some value) :
    ((values.flatMap (littleEndian width)).drop (i * min width 8)).take (min width 8) =
      littleEndian width value := by
  -- All values take the same number of bytes, so that as many are skipped for each.
  induction values generalizing i with
  | nil => cases found
  | cons first others ih =>
    have length := (encodes_littleEndian width first).length
    rw [List.flatMap_cons]
    cases i with
    | zero =>
      cases found
      rw [Nat.zero_mul, List.drop_zero, List.take_left' length]
    | succ i =>
      rw [Nat.succ_mul, Nat.add_comm, ← List.drop_drop, List.drop_left' length]
      exact ih found

/-- Bytes that are cut or filled up start with the bytes that they are made of. -/
theorem take_resized {size count : Nat} {bytes : List UInt8} (within : count ≤ size)
    (enough : count ≤ bytes.length) : (resized size bytes).take count = bytes.take count := by
  -- The zeros begin only where the bytes end.
  have long : count ≤ (bytes.take size).length := by
    rw [List.length_take]
    omega
  rw [resized, List.take_append_of_le_length long, List.take_take, Nat.min_eq_left within]

/-- Values that are put one behind the other and cut or filled up to a size are laid out. -/
theorem laidOut_resized (width size : Nat) (values : List Int64) :
    LaidOut (min width 8) size values (resized size (values.flatMap (littleEndian width))) := by
  -- A value that lies inside the size is whole, and behind the last one there are zeros.
  have total := length_flatMap_littleEndian width values
  refine ⟨length_resized .., fun i value found inside => ?_, fun k less behind => ?_⟩
  · -- The value lies inside, so that neither the cut nor the zeros are met.
    have present := (List.getElem?_eq_some_iff.1 found).1
    have enough : (i + 1) * min width 8 ≤ values.length * min width 8 :=
      Nat.mul_le_mul_right _ present
    rw [Nat.succ_mul] at inside enough
    rw [List.take_drop, take_resized inside (total ▸ enough), ← List.take_drop,
      take_drop_flatMap_littleEndian width found]
    exact encodes_littleEndian width value
  · -- Behind the last value there are only the zeros that fill up to the size.
    rw [resized, List.getElem?_append_right (by rw [List.length_take]; omega),
      List.getElem?_replicate, if_pos (by rw [List.length_take]; omega)]

/-! ### Pieces in an image -/

/-- The bytes of an image from a slot on, as many as are asked for. -/
def Image.bytesAt? (image : Image) (slot : Slot) (count : Nat) : Option (List UInt8) := do
  let bank ← image.banks.find? (·.number = slot.bank)
  let region ← bank.regions[slot.region]?
  return (region.bytes.drop slot.offset).take count

/-- A bank of the image is found by its number like the bank that it shows. -/
theorem find?_banks {banks : List (Nat × Bank)} {f : Bank → BankImage}
    (numbered : ∀ {key bank}, (key, bank) ∈ banks → bank.number = key)
    (kept : ∀ bank, (f bank).number = bank.number) (number : Nat) :
    ((banks.map fun (_, bank) => f bank).find? (·.number = number)) =
      (Entries.get? number banks).map f := by
  -- Both look for the first one that has the number, which is also the key.
  induction banks with
  | nil => rfl
  | cons head rest ih =>
    obtain ⟨key, bank⟩ := head
    have here : (f bank).number = key := (kept bank).trans (numbered List.mem_cons_self)
    have later := ih fun inside => numbered (List.mem_cons_of_mem _ inside)
    rw [List.map_cons, List.find?_cons, Entries.get?, here]
    by_cases same : key = number
    · simp [same]
    · simp only [same, decide_false, if_false]
      exact later

instance : Std.Symm Piece.Apart :=
  ⟨fun _ _ away => away.symm⟩

/-- The byte of a piece stands where the piece has one, since no other piece has one there. -/
theorem Piece.findSome?_byteAt? {pieces : List Piece} {bytesOf : Piece → List UInt8}
    (apart : pieces.Pairwise Piece.Apart)
    (sized : ∀ piece ∈ pieces, (bytesOf piece).length = piece.size) {piece : Piece}
    (met : piece ∈ pieces) {bank index offset : Nat} {byte : UInt8}
    (here : piece.byteAt? (bytesOf piece) bank index offset = some byte) :
    (pieces.findSome? fun piece => piece.byteAt? (bytesOf piece) bank index offset) =
      some byte := by
  -- A piece has a byte only where it covers the offset.
  have covers : ∀ {other byte}, other ∈ pieces →
      other.byteAt? (bytesOf other) bank index offset = some byte →
        other.Covers bank index offset := by
    intro other byte inside has
    unfold Piece.byteAt? at has
    split at has
    · rename_i place
      have less := (List.getElem?_eq_some_iff.1 has).1
      rw [sized other inside] at less
      exact ⟨place.1, place.2.1, place.2.2, by omega⟩
    · cases has
  cases sought : pieces.findSome? fun piece => piece.byteAt? (bytesOf piece) bank index offset with
  | none =>
    rw [List.findSome?_eq_none_iff.1 sought piece met] at here
    cases here
  | some found =>
    obtain ⟨other, inside, has⟩ := List.exists_of_findSome?_eq_some sought
    -- Two pieces that have a byte in one place are one and the same.
    obtain rfl : other = piece := by
      by_contra different
      exact apart.forall inside met different bank index offset (covers inside has)
        (covers met here)
    exact has.symm.trans here

/-- The bytes of a piece stand in its region from its offset on. -/
theorem Buffer.assembled_slice {pieces : List Piece} {bytesOf : Piece → List UInt8}
    (apart : pieces.Pairwise Piece.Apart)
    (sized : ∀ piece ∈ pieces, (bytesOf piece).length = piece.size) {piece : Piece}
    (met : piece ∈ pieces) {region : Buffer} (lies : piece.LiesIn region) :
    ((region.assembled pieces bytesOf piece.slot.bank piece.slot.region).drop
      piece.slot.offset).take piece.size = bytesOf piece := by
  have within : piece.slot.offset + piece.size ≤ region.extent :=
    Nat.le_trans lies.fits (Nat.le_max_right ..)
  -- Byte by byte, the piece is asked at the offset that it has in the region.
  refine List.ext_getElem? fun k => ?_
  by_cases inside : k < piece.size
  · have less : k < (bytesOf piece).length := by rwa [sized piece met]
    have here : piece.byteAt? (bytesOf piece) piece.slot.bank piece.slot.region
        (piece.slot.offset + k) = some (bytesOf piece)[k] := by
      simp [Piece.byteAt?, List.getElem?_eq_getElem less]
    rw [List.getElem?_take_of_lt inside, List.getElem?_drop, Buffer.assembled, List.getElem?_map,
      List.getElem?_range (by omega), Option.map_some,
      Piece.findSome?_byteAt? apart sized met here, List.getElem?_eq_getElem less]
    rfl
  · -- Behind the piece both lists are at their end.
    rw [List.getElem?_take_eq_none (by omega), List.getElem?_eq_none (by rw [sized piece met]; omega)]

/-- The bytes of a piece stand in the image from the slot of the piece on. -/
theorem Assembled.bytesAt? {session : Session} {stmts : List Stmt} {final : Layout} {image : Image}
    (assembled : Assembled session stmts final image) {piece : Piece}
    (met : piece ∈ Layout.piecesFrom session stmts {}) :
    ∃ address bytes, piece.content.Assembles session final.addresses address bytes ∧
      image.bytesAt? piece.slot piece.size = some bytes := by
  -- The piece is filled in its region, and the other pieces of the region lie beside it.
  obtain ⟨bytesOf, fills, banks⟩ := assembled.bytes
  have keyed := (Layout.walk_tracks (Tracks.start session) assembled.walked).keyed
  have sized : ∀ piece ∈ Layout.piecesFrom session stmts {}, (bytesOf piece).length = piece.size := by
    intro piece met
    obtain ⟨region, -, -, assembles⟩ := fills piece met
    exact assembles.length
  obtain ⟨region, found, lies, assembles⟩ := fills piece met
  refine ⟨_, bytesOf piece, assembles, ?_⟩
  obtain ⟨bank, there, inside⟩ := Option.bind_eq_some_iff.1 found
  have numbered : bank.number = piece.slot.bank := keyed.number (Entries.mem_of_get? there)
  -- The bank and the region are found in the image where they are in the banks.
  rw [Image.bytesAt?, banks, find?_banks keyed.number fun _ => rfl, there]
  simp only [Option.map_some, Bank.assembledImage, numbered, Option.bind_eq_bind, Option.bind_some,
    List.getElem?_mapIdx, inside, Buffer.assembledImage, Option.pure_def, Option.some.injEq]
  exact Buffer.assembled_slice assembled.apart sized met lies

/-! ### Initial values -/

/-- Expressions whose values are known are known one by one. -/
theorem Addresses.forall₂_of_evalAll {addresses : Addresses} {pos : Pos} {exprs : List Expr}
    {values : List Int64} (known : addresses.evalAll pos exprs = .ok (some values)) :
    List.Forall₂ (fun e value => addresses.eval e pos = .ok (some value)) exprs values := by
  -- The values are asked for in order, and the first one that is not known ends it.
  induction exprs generalizing values with
  | nil =>
    cases known
    exact .nil
  | cons e others ih =>
    simp only [evalAll, except_bind_eq_ok] at known
    obtain ⟨first, here, known⟩ := known
    cases first with
    | none => simp at known
    | some value =>
      simp only [except_bind_eq_ok, except_pure_eq_ok, Option.map_eq_some_iff] at known
      obtain ⟨_, later, rest, rfl, rfl⟩ := known
      exact .cons here (ih later)

namespace Layout

variable {session : Session} {state state' before : Layout}

/-- A statement that stands behind others is met where the walk over these ends, and the walk goes on
behind it. -/
theorem walk_behind {early late : List Stmt} {s : Stmt}
    (ran : walk session (early ++ s :: late) state = .ok () state') :
    ∃ before next, walk session early state = .ok () before ∧
      stmt session s before = .ok () next ∧ walk session late next = .ok () state' ∧
      (before, s) ∈ visits session (early ++ s :: late) state := by
  -- The statements before it are taken off one by one.
  induction early generalizing state with
  | nil =>
    simp only [List.nil_append, walk, bind_eq_ok] at ran
    obtain ⟨_, next, stepped, ran⟩ := ran
    exact ⟨state, next, by rw [walk, pure_eq_ok]; exact ⟨rfl, rfl⟩, stepped, ran, List.mem_cons_self⟩
  | cons first others ih =>
    simp only [List.cons_append, walk, bind_eq_ok] at ran
    obtain ⟨_, middle, stepped, ran⟩ := ran
    obtain ⟨before, next, walked, done, rest, met⟩ := ih ran
    refine ⟨before, next, ?_, done, rest, ?_⟩
    · simp only [walk, bind_eq_ok]
      exact ⟨(), middle, stepped, walked⟩
    · simp only [List.cons_append, visits, stepped]
      exact List.mem_cons_of_mem _ met

/-- A variable with initial contents takes the place of the cursor, and is put on record there. -/
theorem Step.variable_place {var : Variable} {size : Nat}
    (step : Step session before (.item (.var var)) state') (keyed : before.rom.Keyed)
    (filled : var.init.isSome = true) (sized : var.size = some size) :
    ∃ slot region, before.rom.openSlot? = some (slot, region) ∧
      ⟨var.key, UInt16.ofNat region.cursor, size⟩ ∈ state'.data := by
  -- Only the step of a variable with contents reserves space in ROM.
  cases step with
  | fixed plain | free plain => exact absurd filled plain
  | @filled _ size' slot address _ _ _ sized' room reserved _ tried =>
    -- The space is reserved first, and its address is the one that goes on record.
    obtain rfl : size' = size := Option.some.inj (sized'.symm.trans sized)
    obtain ⟨region, opened, -, rfl, -⟩ := Rom.reserve_run keyed room reserved
    refine ⟨slot, region, opened, ?_⟩
    rw [(retry_rests tried).data]
    simp

end Layout

/-- In every image that layout returns, the initial values of a variable stand one after another in the
bytes that were reserved for it, under the addresses that the whole walk binds. Each takes the width of
an element, but no more than eight bytes. -/
theorem initial_values_laid_out {session : Session} {stmts : List Stmt} {image : Image}
    (returned : layout session stmts = .ok image) :
    ∃ final, Layout.walk session stmts {} = .ok () final ∧
      ∀ early var late exprs size width, stmts = early ++ .item (.var var) :: late →
        var.init.map Initializer.value = some (.values exprs) → var.size = some size →
        View.sizeOfType { scopes := session.scopes, ns := var.ns, pos := var.pos } var.type =
          .ok (some width) →
        ∃ before slot region values bytes, Layout.walk session early {} = .ok () before ∧
          before.rom.openSlot? = some (slot, region) ∧
          ⟨var.key, UInt16.ofNat region.cursor, size⟩ ∈ image.data ∧
          List.Forall₂ (fun e value => final.addresses.eval e var.pos = .ok (some value))
            exprs values ∧
          image.bytesAt? slot size = some bytes ∧
          LaidOut (min width 8) size values bytes := by
  -- The walk is cut at the variable: what is on record then is on record at its end.
  obtain ⟨last, ran, rfl⟩ := Layout.layout_eq_ok.1 returned
  obtain ⟨final, assembled⟩ := Layout.run_assembled ran
  refine ⟨final, assembled.walked, ?_⟩
  rintro early var late exprs size width rfl listed sized wide
  have filled : var.init.isSome = true := by
    obtain ⟨init, given, -⟩ := Option.map_eq_some_iff.1 listed
    simp [given]
  obtain ⟨before, next, walked, done, rest, met⟩ := Layout.walk_behind assembled.walked
  have tracks := Layout.walk_tracks (Tracks.start session) walked
  have step := Layout.stmt_step done
  obtain ⟨slot, region, opened, recorded⟩ := step.variable_place tracks.keyed filled sized
  -- What is put on record here stays on record up to the end of the walk.
  have known := (Layout.walk_binds (Tracks.start session) walked Layout.known_start).1.known
  have stays := (Layout.walk_binds (step.tracks tracks) rest (step.binds known).known).1
  -- The variable is a piece of the image, which is assembled from its values.
  have piece : (⟨slot, .data var size⟩ : Piece) ∈
      Layout.piecesFrom session (early ++ .item (.var var) :: late) {} := by
    refine List.mem_filterMap.2 ⟨_, met, ?_⟩
    simp [Layout.pieceAt, Stmt.content?, filled, sized, opened]
  obtain ⟨address, bytes, assembles, stands⟩ := assembled.bytesAt? piece
  cases assembles with
  | data known =>
    simp only [Deferred.dataBytes, listed, wide, except_bind_eq_ok, except_pure_eq_ok,
      Option.map_eq_some_iff] at known
    obtain ⟨_, same, _, all, values, rfl, rfl⟩ := known
    cases same
    refine ⟨before, slot, region, values, _, walked, opened, ?_, Addresses.forall₂_of_evalAll all,
      stands, laidOut_resized width size values⟩
    rw [assembled.records.2]
    exact stays.data recorded

/-- An array that starts with values. -/
def filledArray (type : String) (count : Int64) (size : Nat) (exprs : List Expr) : Variable :=
  ⟨type, "x", false, .sized (.number count), none, some ⟨.values exprs, default⟩, .global, some size,
    default⟩

/-- An array of three words, of which the second is a label behind it and the third is not given. -/
def wordsAhead : List Stmt :=
  [.item (.directive (.romOrg 0x8000 none) default),
   .item (.var (filledArray "word" 3 6 [.number (-2), .ref "end"])),
   .item (.label ⟨"end", default⟩)]

/-- Each word takes its two bytes, and the one that is not given is zero. -/
theorem wordsAhead_laid_out :
    ∃ image slot values bytes, layout { cpu := .nmos } wordsAhead = .ok image ∧
      image.banks.map (fun bank => bank.regions.map RegionImage.bytes) =
        [[[0xFE, 0xFF, 0x06, 0x80, 0, 0]]] ∧
      image.bytesAt? slot 6 = some bytes ∧ values.length = 2 ∧ LaidOut 2 6 values bytes := by
  -- Only the bytes are computed; how they are laid out follows from layout having returned.
  have evaluated : ((layout { cpu := .nmos } wordsAhead).toOption.map fun image =>
      image.banks.map fun bank => bank.regions.map RegionImage.bytes) =
        some [[[0xFE, 0xFF, 0x06, 0x80, 0, 0]]] := by
    decide +kernel
  obtain ⟨image, returned, same⟩ := Layout.exists_of_evaluated evaluated
  obtain ⟨final, -, all⟩ := initial_values_laid_out returned
  obtain ⟨before, slot, region, values, bytes, -, -, -, known, stands, laidOut⟩ :=
    all [_] _ [_] _ 6 2 rfl rfl rfl rfl
  exact ⟨image, slot, values, bytes, returned, same, stands, known.length_eq.symm, laidOut⟩

/-- A session that knows a type of nine bytes. -/
def knowsWide : Session where
  cpu := .nmos
  scopes := { symbols := [((.global, "wide"),
    .type (.struct ⟨"wide", [⟨"byte", "a", .sized (.number 9)⟩]⟩))] }

/-- An array of two elements of nine bytes each. -/
def wideElements : List Stmt :=
  [.item (.directive (.romOrg 0x8000 none) default),
   .item (.var (filledArray "wide" 2 18 [.number 1, .number 2]))]

/-- An element that is wider than a value does not take its width: the second one stands behind eight
bytes, inside the first. -/
theorem wideElements_misplaced :
    (View.sizeOfType { scopes := knowsWide.scopes, ns := .global, pos := default } "wide").toOption =
        some (some 9) ∧
      ∃ image bytes, layout knowsWide wideElements = .ok image ∧
        image.data = [⟨"x", 0x8000, 18⟩] ∧ image.bytesAt? ⟨0, 0, 0⟩ 18 = some bytes ∧
        bytes = [1, 0, 0, 0, 0, 0, 0, 0, 2, 0, 0, 0, 0, 0, 0, 0, 0, 0] ∧
        ¬LaidOut 9 18 [1, 2] bytes := by
  -- The image is evaluated once, and the bytes of the variable are taken from it.
  refine ⟨by decide +kernel, ?_⟩
  have evaluated : ((layout knowsWide wideElements).toOption.map fun image =>
      (image.data, image.bytesAt? ⟨0, 0, 0⟩ 18)) =
        some ([⟨"x", 0x8000, 18⟩],
          some [1, 0, 0, 0, 0, 0, 0, 0, 2, 0, 0, 0, 0, 0, 0, 0, 0, 0]) := by
    decide +kernel
  obtain ⟨image, returned, same⟩ := Layout.exists_of_evaluated evaluated
  obtain ⟨recorded, stands⟩ := Prod.mk.inj same
  refine ⟨image, _, returned, recorded, stands, rfl, fun laidOut => ?_⟩
  -- The first nine bytes have the low byte of the second value in their highest place.
  have wrong := (laidOut.element 0 1 rfl (by decide)).digits
  revert wrong
  decide +kernel

end CrossAsm
