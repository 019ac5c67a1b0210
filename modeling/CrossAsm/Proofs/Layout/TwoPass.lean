import CrossAsm.Proofs.Layout.Walk

/-! Layout as a two-pass assembler: the walk finds all addresses and the place of every piece, and
the image has each piece assembled under these addresses, and fill in between. -/

namespace CrossAsm

/-! ### What writing leaves as it is -/

/-- A region with nothing written in it. -/
def Buffer.blanked (region : Buffer) : Buffer :=
  { region with data := List.replicate region.length none }

/-- Writing into a region leaves it as it was but for the bytes. -/
@[simp]
theorem Buffer.blanked_writeAt (region : Buffer) (offset : Nat) (bytes : List UInt8) :
    (region.writeAt offset bytes).blanked = region.blanked := by
  -- Bytes do not show in what is left, only how many there are, and that is the same.
  rw [blanked, length_writeAt, writeAt]
  split <;> rfl

namespace Bank

variable (bank : Bank) (index offset : Nat) (bytes : List UInt8)

/-- Writing leaves the number of a bank. -/
theorem number_writeAt : (bank.writeAt index offset bytes).number = bank.number := by
  -- Only the regions of the bank are changed.
  unfold writeAt
  split <;> rfl

/-- Writing leaves the size of a bank. -/
theorem maxsize_writeAt : (bank.writeAt index offset bytes).maxsize = bank.maxsize := by
  -- Only the regions of the bank are changed.
  unfold writeAt
  split <;> rfl

/-- Writing into a region leaves every region of the bank as it was but for the bytes. -/
theorem blanked_writeAt :
    (bank.writeAt index offset bytes).closed.map Buffer.blanked =
        bank.closed.map Buffer.blanked ∧
      (bank.writeAt index offset bytes).regions.map Buffer.blanked =
        bank.regions.map Buffer.blanked := by
  -- A closed region stays in its place, and the open one is the last.
  have same : (bank.closed.modify index (·.writeAt offset bytes)).map Buffer.blanked =
      bank.closed.map Buffer.blanked := by
    refine List.ext_getElem? fun place => ?_
    simp only [List.getElem?_map, List.getElem?_modify]
    split
    · simp [Function.comp_def]
    · simp
  unfold writeAt
  split
  · simp only [regions, List.map_append, same, and_self]
  · refine ⟨rfl, ?_⟩
    cases isOpen : bank.current <;> simp [regions, isOpen]

end Bank

/-- What of the banks does not depend on the bytes that are written. -/
def Rom.outline (rom : Rom) : List (Nat × Nat × Option Nat × List Buffer) :=
  rom.banks.map fun (key, bank) =>
    (key, bank.number, bank.maxsize, bank.regions.map Buffer.blanked)

namespace Rom

variable {rom rom' : Rom}

/-- The same banks have the same outline. -/
theorem outline_of_view (seen : rom'.view = rom.view) : rom'.outline = rom.outline := by
  -- The outline is the view with every region blanked.
  have through : ∀ r : Rom, r.outline = r.view.map fun (key, number, maxsize, regions) =>
      (key, number, maxsize, regions.map Buffer.blanked) := by
    intro r
    rw [view, List.map_map]
    rfl
  rw [through, through, seen]

/-- A region is seen in its place in the outline. -/
theorem map_region?_eq_outline (rom : Rom) (bank index : Nat) :
    (rom.region? bank index).map Buffer.blanked =
      (Entries.get? bank rom.outline).bind fun seen => seen.2.2[index]? := by
  -- As for the view, entry by entry; blanking keeps the place of a region.
  unfold region? outline
  induction rom.banks with
  | nil => rfl
  | cons head rest ih =>
    obtain ⟨key, found⟩ := head
    by_cases here : key = bank
    · simp [Entries.get?, here]
    · simpa [Entries.get?, here] using ih

/-- Banks of the same outline have a region of the same start and length in each place. -/
theorem region?_of_outline (same : rom'.outline = rom.outline) {bank index : Nat} {region : Buffer}
    (found : rom'.region? bank index = some region) :
    ∃ old, rom.region? bank index = some old ∧ region.org = old.org ∧
      region.length = old.length := by
  -- Blanked regions that are equal have one start and one length.
  have seen := map_region?_eq_outline rom' bank index
  rw [same, ← map_region?_eq_outline, found, Option.map_some] at seen
  obtain ⟨old, there, blank⟩ := Option.map_eq_some_iff.1 seen.symm
  simp only [Buffer.blanked, Buffer.mk.injEq] at blank
  refine ⟨old, there, blank.1.symm, ?_⟩
  simpa using (congrArg List.length blank.2.2.2).symm

/-- The same banks let no region change. -/
theorem keeps_of_view (keyed : rom'.Keyed) (seen : rom'.view = rom.view) : rom.Keeps rom' := by
  -- A region is found through what is seen of the banks.
  refine ⟨keyed, fun bank index => ?_⟩
  rw [region?_eq_view rom', seen, ← region?_eq_view]
  exact Grown.refl _

/-- Writing leaves the outline. -/
theorem writeAt_outline (keyed : rom.Keyed) {slot : Slot} {bytes : List UInt8}
    (ran : writeAt slot bytes rom = .ok () rom') : rom'.outline = rom.outline := by
  simp only [writeAt, bind_eq_ok, get_eq_ok] at ran
  obtain ⟨_, _, ⟨rfl, rfl⟩, ran⟩ := ran
  -- Where there is no bank there is nothing to write to.
  cases entered : Entries.get? slot.bank rom.banks with
  | none =>
    simp only [entered, pure_eq_ok, true_and] at ran
    rw [ran]
  | some bank =>
    simp only [entered, setBank, modify_eq_ok] at ran
    rw [Bank.number_writeAt, keyed.number (Entries.mem_of_get? entered)] at ran
    subst ran
    refine Entries.map_insert_of_get? _ entered ?_
    simp only [Bank.number_writeAt, Bank.maxsize_writeAt, (bank.blanked_writeAt ..).2]

end Rom

namespace Layout

variable {session : Session} {state state' : Layout} {pieces : List Piece}

/-- What trying leaves: pieces are tracked, and addresses and outline stay. -/
structure Settled (session : Session) (pieces : List Piece) (state state' : Layout) : Prop where
  /-- Each piece is written or waits. -/
  tracks : Tracks session state'.addresses pieces state'.pending state'.rom
  /-- Names and records stay. -/
  rests : state.Rests state'
  /-- The outline of the banks stays. -/
  outline : state'.rom.outline = state.rom.outline

/-- Trying items in order keeps the pieces tracked. -/
theorem retryAll_settled {items : List Deferred}
    (ran : retryAll session items state = .ok () state')
    (tracks : Tracks session state.addresses pieces (state.pending ++ items) state.rom) :
    Settled session pieces state state' := by
  -- What is not tried yet stays in the list behind what waits, until the list is empty.
  induction items generalizing state with
  | nil =>
    rw [retryAll, pure_eq_ok] at ran
    obtain ⟨-, rfl⟩ := ran
    exact ⟨by simpa using tracks, rests_rom state state.rom, rfl⟩
  | cons item others ih =>
    simp only [retryAll, bind_eq_ok] at ran
    obtain ⟨_, middle, tried, ran⟩ := ran
    have rest := ih ran (retry_tracks tried tracks)
    refine ⟨rest.tracks, (retry_rests tried).trans rest.rests, rest.outline.trans ?_⟩
    exact retry_rom (P := fun rom => rom.outline = state.rom.outline) tried rfl
      (Rom.writeAt_outline tracks.keyed)

/-- When all rounds are over, nothing waits any more. -/
theorem settle_settled {count left : Nat}
    (ran : settle session count left state = .ok () state')
    (tracks : Tracks session state.addresses pieces state.pending state.rom) :
    Settled session pieces state state' ∧ state'.pending = [] := by
  -- The induction is on the rounds that are left; the last one ends in an error, not in a result.
  induction left generalizing count state with
  | zero => simp [settle] at ran
  | succ left ih =>
    simp only [settle, bind_eq_ok, get_eq_ok] at ran
    obtain ⟨_, _, ⟨rfl, rfl⟩, ran⟩ := ran
    split at ran
    · -- Nothing waits, so this is the last round.
      rename_i empty
      rw [pure_eq_ok] at ran
      obtain ⟨-, rfl⟩ := ran
      exact ⟨⟨tracks, rests_rom state state.rom, rfl⟩, List.isEmpty_iff.1 empty⟩
    · simp only [bind_eq_ok, modify_eq_ok, get_eq_ok] at ran
      obtain ⟨_, _, rfl, _, middle, tried, _, _, ⟨rfl, rfl⟩, ran⟩ := ran
      have round := retryAll_settled tried (by simpa using tracks)
      split at ran
      · simp at ran
      · obtain ⟨last, done⟩ := ih ran round.tracks
        have emptied : state.Rests { state with pending := [] } := ⟨rfl, rfl, rfl, rfl, rfl, rfl⟩
        exact ⟨⟨last.tracks, emptied.trans (round.rests.trans last.rests),
          last.outline.trans round.outline⟩, done⟩

end Layout

/-! ### The second pass -/

/-- The byte that a piece with the given bytes has at an offset of a region. -/
def Piece.byteAt? (bytes : List UInt8) (piece : Piece) (bank region offset : Nat) : Option UInt8 :=
  if piece.slot.bank = bank ∧ piece.slot.region = region ∧ piece.slot.offset ≤ offset then
    bytes[offset - piece.slot.offset]?
  else
    none

/-- The bytes of a region as far as it extends: those of pieces, and fill everywhere else. -/
def Buffer.assembled (region : Buffer) (pieces : List Piece) (bytesOf : Piece → List UInt8)
    (bank index : Nat) : List UInt8 :=
  (List.range region.extent).map fun offset =>
    (pieces.findSome? fun piece => piece.byteAt? (bytesOf piece) bank index offset).getD
      (region.padding.byteAt offset)

/-- The image of a region, assembled from pieces. -/
def Buffer.assembledImage (pieces : List Piece) (bytesOf : Piece → List UInt8) (bank index : Nat)
    (region : Buffer) : RegionImage :=
  ⟨region.org, region.maxsize, region.assembled pieces bytesOf bank index, region.padding⟩

/-- The image of a bank, assembled from pieces. -/
def Bank.assembledImage (pieces : List Piece) (bytesOf : Piece → List UInt8) (bank : Bank) :
    BankImage :=
  ⟨bank.number, bank.maxsize,
    bank.regions.mapIdx (Buffer.assembledImage pieces bytesOf bank.number)⟩

/-- The second pass reads nothing that is written. -/
theorem Buffer.assembledImage_blanked (pieces : List Piece) (bytesOf : Piece → List UInt8)
    (bank index : Nat) (region : Buffer) :
    region.blanked.assembledImage pieces bytesOf bank index =
      region.assembledImage pieces bytesOf bank index := by
  -- The bytes come from the pieces; of the region only start, length and fill are read.
  have extent : region.blanked.extent = region.extent := by
    simp [Buffer.extent, Buffer.blanked, Buffer.length]
  simp only [Buffer.assembledImage, Buffer.assembled, extent]
  rfl

/-- Banks of the same outline are assembled to the same images. -/
theorem assembledImage_of_outline {rom rom' : Rom} (pieces : List Piece)
    (bytesOf : Piece → List UInt8) (same : rom'.outline = rom.outline) :
    rom'.banks.map (fun (_, bank) => bank.assembledImage pieces bytesOf) =
      rom.banks.map fun (_, bank) => bank.assembledImage pieces bytesOf := by
  -- The images can be made from the outline alone.
  have through : ∀ r : Rom, r.banks.map (fun (_, bank) => bank.assembledImage pieces bytesOf) =
      r.outline.map fun (_, number, maxsize, regions) =>
        ⟨number, maxsize, regions.mapIdx (Buffer.assembledImage pieces bytesOf number)⟩ := by
    intro r
    rw [Rom.outline, List.map_map]
    refine List.map_congr_left fun entry _ => ?_
    simp only [Bank.assembledImage, Function.comp_apply, BankImage.mk.injEq, true_and]
    refine List.ext_getElem? fun index => ?_
    rw [List.getElem?_mapIdx, List.getElem?_mapIdx, List.getElem?_map, Option.map_map]
    congr 1
    exact funext fun region => (Buffer.assembledImage_blanked ..).symm
  rw [through, through, same]

/-- The final bytes of a region, offset by offset. -/
theorem Buffer.finish_eq (region : Buffer) :
    region.finish = (List.range region.extent).map fun offset =>
      (region.data[offset]?.join).getD (region.padding.byteAt offset) := by
  -- Both sides are compared at one offset.
  have within : region.length ≤ region.extent := Nat.le_max_right ..
  simp only [Buffer.length] at within
  refine List.ext_getElem? fun offset => ?_
  rw [Buffer.finish, List.getElem?_append, List.length_map, List.length_zipIdx]
  -- Reserved bytes come first, and what is left of the extent behind them.
  by_cases reserved : offset < region.data.length
  · rw [if_pos reserved, List.getElem?_map, List.getElem?_zipIdx, List.getElem?_map,
      List.getElem?_range (by omega)]
    simp [List.getElem?_eq_getElem reserved]
  · have nothing : region.data[offset]? = none := List.getElem?_eq_none (by omega)
    rw [if_neg reserved, List.getElem?_map, List.getElem?_map, Buffer.length]
    by_cases inside : offset < region.extent
    · rw [List.getElem?_range' (by omega), List.getElem?_range inside]
      have place : region.data.length + (offset - region.data.length) = offset := by omega
      simp [nothing, place]
    · rw [List.getElem?_eq_none (by simp; omega), List.getElem?_eq_none (by simp; omega)]
      rfl

section SecondPass

variable {session : Session} {addresses : Addresses} {pieces : List Piece} {rom : Rom}
  {bytesOf : Piece → List UInt8}

/-- Pieces of which none waits stand in the banks byte by byte. -/
theorem Tracks.findSome?_eq (tracks : Tracks session addresses pieces [] rom)
    (fills : ∀ piece ∈ pieces, ∃ region,
      rom.region? piece.slot.bank piece.slot.region = some region ∧
      piece.content.Assembles session addresses (piece.address region) (bytesOf piece))
    {bank index : Nat} {region : Buffer} (found : rom.region? bank index = some region)
    (offset : Nat) :
    (pieces.findSome? fun piece => piece.byteAt? (bytesOf piece) bank index offset) =
      region.data[offset]?.join := by
  -- A byte is found in a piece, or no piece covers the offset.
  cases sought : pieces.findSome? fun piece => piece.byteAt? (bytesOf piece) bank index offset with
  | some byte =>
    -- The piece is written, so its byte stands in the region.
    obtain ⟨piece, met, here⟩ := List.exists_of_findSome?_eq_some sought
    unfold Piece.byteAt? at here
    split at here
    · rename_i place
      obtain ⟨rfl, rfl, least⟩ := place
      obtain ⟨same, again, -, written | ⟨item, none_, -⟩⟩ := tracks.stored piece met
      · obtain ⟨bytes, assembles, holds⟩ := written
        obtain ⟨other, once, filled⟩ := fills piece met
        cases found.symm.trans again
        cases found.symm.trans once
        cases assembles.unique filled
        have stands := holds _ _ here
        rw [Nat.add_sub_cancel' least] at stands
        rw [stands]
        rfl
      · cases none_
    · cases here
  | none =>
    -- A byte that stands there would belong to a piece.
    cases stands : region.data[offset]?.join with
    | none => rfl
    | some byte =>
      obtain ⟨piece, met, rfl, rfl, least, less⟩ :=
        tracks.covered found (Option.join_eq_some_iff.1 stands)
      have nothing := List.findSome?_eq_none_iff.1 sought piece met
      obtain ⟨other, once, filled⟩ := fills piece met
      rw [Piece.byteAt?, if_pos ⟨rfl, rfl, least⟩, List.getElem?_eq_none_iff, filled.length]
        at nothing
      simp only [Piece.size] at less
      omega

/-- Once nothing waits, the image of a bank is assembled from the pieces. -/
theorem Tracks.bankImage_eq (tracks : Tracks session addresses pieces [] rom)
    (fills : ∀ piece ∈ pieces, ∃ region,
      rom.region? piece.slot.bank piece.slot.region = some region ∧
      piece.content.Assembles session addresses (piece.address region) (bytesOf piece)) :
    rom.banks.map (fun (_, bank) => Layout.bankImage bank) =
      rom.banks.map fun (_, bank) => bank.assembledImage pieces bytesOf := by
  -- Bank by bank and region by region, it comes down to one offset.
  refine List.map_congr_left fun (key, bank) inside => ?_
  have number : bank.number = key := tracks.keyed.number inside
  have found := Entries.get?_of_mem tracks.keyed.distinct inside
  simp only [Layout.bankImage, Bank.assembledImage, BankImage.mk.injEq, true_and]
  refine List.ext_getElem? fun index => ?_
  rw [List.getElem?_map, List.getElem?_mapIdx]
  cases here : bank.regions[index]? with
  | none => rfl
  | some region =>
    have placed : rom.region? bank.number index = some region := by
      simp [Rom.region?, number, found, here]
    simp only [Option.map_some, Option.some.injEq, Layout.regionImage, Buffer.assembledImage,
      RegionImage.mk.injEq, true_and, and_true]
    rw [Buffer.finish_eq, Buffer.assembled]
    exact List.map_congr_left fun offset _ => by rw [tracks.findSome?_eq fills placed]

/-- Once nothing waits, every piece lies in its region, assembled. -/
theorem Tracks.exists_bytesOf (tracks : Tracks session addresses pieces [] rom) :
    ∃ bytesOf : Piece → List UInt8, ∀ piece ∈ pieces, ∃ region,
      rom.region? piece.slot.bank piece.slot.region = some region ∧ piece.LiesIn region ∧
      piece.content.Assembles session addresses (piece.address region) (bytesOf piece) := by
  -- Nothing waits, so each piece is written, and its bytes can be chosen.
  have each : ∀ piece, ∃ bytes, piece ∈ pieces → ∃ region,
      rom.region? piece.slot.bank piece.slot.region = some region ∧ piece.LiesIn region ∧
      piece.content.Assembles session addresses (piece.address region) bytes := by
    intro piece
    by_cases met : piece ∈ pieces
    · obtain ⟨region, found, lies, ⟨bytes, assembles, -⟩ | ⟨item, waits, -⟩⟩ :=
        tracks.stored piece met
      · exact ⟨bytes, fun _ => ⟨region, found, lies, assembles⟩⟩
      · cases waits
    · exact ⟨[], fun inside => absurd inside met⟩
  exact Classical.skolem.1 each

end SecondPass

/-! ### Both passes -/

/-- An image as a two-pass assembler makes it of statements, with the state that the walk over them
ends in. -/
structure Assembled (session : Session) (stmts : List Stmt) (final : Layout) (image : Image) :
    Prop where
  /-- The first pass binds the addresses and finds the place of every piece. -/
  walked : Layout.walk session stmts {} = .ok () final
  /-- Each piece lies in its region and is assembled under all of these addresses, at the address
  that it has there. The regions have these bytes and their final fill everywhere else. -/
  bytes : ∃ bytesOf : Piece → List UInt8,
    (∀ piece ∈ Layout.piecesFrom session stmts {}, ∃ region,
      final.rom.region? piece.slot.bank piece.slot.region = some region ∧ piece.LiesIn region ∧
      piece.content.Assembles session final.addresses (piece.address region) (bytesOf piece)) ∧
    image.banks = final.rom.banks.map fun (_, bank) =>
      bank.assembledImage (Layout.piecesFrom session stmts {}) bytesOf
  /-- No two pieces share a byte. -/
  apart : (Layout.piecesFrom session stmts {}).Pairwise Piece.Apart
  /-- Each label has the address of the cursor of the region that is open where it stands. -/
  labels : ∀ before l, (before, .item (.label l)) ∈ Layout.visits session stmts {} →
    ∃ slot region, before.rom.openSlot? = some (slot, region) ∧ region.cursor < addressSpace ∧
      Entries.get? l.name image.labels = some (UInt16.ofNat region.cursor)
  /-- Labels and variables of the image are bound to the addresses they have in it. -/
  bound : Addresses.ExtendedBy image.labels final.addresses ∧
    ∀ placement ∈ image.ram ++ image.data,
      Entries.get? placement.name final.addresses = some placement.address
  /-- The variables of the image are those that the first pass has put on record. -/
  records : image.ram = final.placed ∧ image.data = final.data

namespace Layout

variable {session : Session} {state state' : Layout} {pieces : List Piece}

/-- The walk binds each label where it stands, and every name keeps its address. -/
theorem walk_binds {stmts : List Stmt}
    (tracks : Tracks session state.addresses pieces state.pending state.rom)
    (ran : walk session stmts state = .ok () state') (known : state.Known) :
    state.Binds state' ∧ ∀ before l, (before, .item (.label l)) ∈ visits session stmts state →
      ∃ slot region, before.rom.openSlot? = some (slot, region) ∧ region.cursor < addressSpace ∧
        Entries.get? l.name state'.labels = some (UInt16.ofNat region.cursor) := by
  -- One statement binds its label, and the rest of the walk keeps it.
  induction stmts generalizing state pieces with
  | nil =>
    rw [walk, pure_eq_ok] at ran
    obtain ⟨-, rfl⟩ := ran
    refine ⟨⟨known, .refl _, .refl _, List.Subset.refl _, List.Subset.refl _⟩, fun before l met => ?_⟩
    cases met
  | cons first others ih =>
    simp only [walk, bind_eq_ok] at ran
    obtain ⟨_, next, stepped, ran⟩ := ran
    have step := stmt_step stepped
    have binds := step.binds known
    obtain ⟨rest, later⟩ := ih (step.tracks tracks) ran binds.known
    refine ⟨binds.trans rest, fun before l visited => ?_⟩
    simp only [visits, stepped, List.mem_cons, Prod.mk.injEq] at visited
    rcases visited with ⟨rfl, rfl⟩ | visited
    · -- The label stands here, and keeps the address it gets here.
      obtain ⟨slot, region, opened, fits, named⟩ := step.label_address tracks.keyed
      exact ⟨slot, region, opened, fits, rest.labels named⟩
    · exact later before l visited

/-- The walk puts each variable that it meets on record. -/
theorem walk_records {stmts : List Stmt}
    (tracks : Tracks session state.addresses pieces state.pending state.rom)
    (ran : walk session stmts state = .ok () state') (known : state.Known) {var : Variable}
    (inside : .item (.var var) ∈ stmts) : ∃ record, state'.OnRecord var record := by
  -- The variable is the statement at hand or one of the others.
  induction stmts generalizing state pieces with
  | nil => cases inside
  | cons first others ih =>
    simp only [walk, bind_eq_ok] at ran
    obtain ⟨_, next, stepped, ran⟩ := ran
    have step := stmt_step stepped
    have tracked := step.tracks tracks
    have binds := step.binds known
    rcases List.mem_cons.1 inside with rfl | later
    · -- What is put on record here stays on record.
      obtain ⟨record, recorded⟩ := step.onRecord
      exact ⟨record, recorded.binds (walk_binds tracked ran binds.known).1⟩
    · exact ih tracked ran binds.known later

/-- Before the walk nothing is known. -/
theorem known_start : Known {} :=
  ⟨.refl _, fun _ => nofun⟩

/-- The walk, the closing of regions, and the rounds after it make an assembled image. -/
theorem run_assembled {stmts : List Stmt} {last : Layout}
    (ran : run session stmts {} = .ok () last) :
    ∃ final, Assembled session stmts final last.image := by
  -- The first pass: after the walk every piece is written or waits, and names stay bound.
  simp only [run, bind_eq_ok, onRom_eq_ok] at ran
  obtain ⟨_, final, walked, _, _, ⟨rom, closed, rfl⟩, settled⟩ := ran
  have tracks := walk_tracks (Tracks.start session) walked
  rw [List.nil_append] at tracks
  obtain ⟨binds, labels⟩ := walk_binds (Tracks.start session) walked known_start
  -- Closing what is open is not seen, so the pieces stay tracked.
  obtain ⟨keyed, seen⟩ := Rom.closeAll_run tracks.keyed closed
  have kept := tracks.keeps (.refl _) (Rom.keeps_of_view keyed seen)
  -- The rounds write all that waits, and bind nothing.
  obtain ⟨⟨done, rests, outline⟩, nothing⟩ := settle_settled settled kept
  rw [nothing, rests.addresses] at done
  have same : last.rom.outline = final.rom.outline := outline.trans (Rom.outline_of_view seen)
  obtain ⟨bytesOf, fills⟩ := done.exists_bytesOf
  refine ⟨final, walked, ⟨bytesOf, fun piece met => ?_, ?_⟩, tracks.apart, ?_, ⟨?_, ?_⟩,
    rests.placed, rests.data⟩
  · -- The rounds move no region, so a piece has the place that the walk gave it.
    obtain ⟨region, found, lies, assembles⟩ := fills piece met
    obtain ⟨old, there, org, length⟩ := Rom.region?_of_outline same found
    have address : piece.address region = piece.address old := by
      rw [Piece.address, org, Piece.address]
    refine ⟨old, there, ⟨length ▸ lies.fits, org ▸ lies.addressed⟩, ?_⟩
    rwa [← address]
  · rw [← assembledImage_of_outline _ bytesOf same]
    refine done.bankImage_eq fun piece met => ?_
    obtain ⟨region, found, -, assembles⟩ := fills piece met
    exact ⟨region, found, assembles⟩
  · simpa only [Layout.image, rests.labels] using labels
  · simpa only [Layout.image, rests.labels] using binds.known.labels
  · simpa only [Layout.image, rests.placed, rests.data] using binds.known.recorded

/-- What layout returns is the image of a run. -/
theorem layout_eq_ok {stmts : List Stmt} {image : Image} :
    layout session stmts = .ok image ↔
      ∃ last, run session stmts {} = .ok () last ∧ last.image = image := by
  -- The image is taken from the state that the run ends in.
  unfold layout
  cases run session stmts {} <;> simp

/-- An image of which something was computed is one that layout returned. -/
theorem exists_of_evaluated {α : Type} {stmts : List Stmt} {f : Image → α} {a : α}
    (evaluated : (layout session stmts).toOption.map f = some a) :
    ∃ image, layout session stmts = .ok image ∧ f image = a := by
  -- Nothing is computed from an error.
  cases returned : layout session stmts with
  | error e => simp [returned, Except.toOption] at evaluated
  | ok image => exact ⟨image, rfl, by simpa [returned, Except.toOption] using evaluated⟩

end Layout

/-- Layout is a two-pass assembler: whatever it returns is assembled under the addresses that the
whole walk binds, so it does not matter whether a name is bound before it is used or after. -/
theorem layout_assembled {session : Session} {stmts : List Stmt} {image : Image}
    (returned : layout session stmts = .ok image) :
    ∃ final, Assembled session stmts final image := by
  -- The run that it returns from fills in what the walk left open.
  obtain ⟨last, ran, rfl⟩ := Layout.layout_eq_ok.1 returned
  exact Layout.run_assembled ran

/-- A jump to a label that stands behind it. -/
def jumpAhead : List Stmt :=
  let line : Instruction := ⟨.jmp, .address (.ref "end"), some .absolute, .global, default⟩
  [.item (.directive (.romOrg 0x8000 none) default), .item (.instruction line),
   .item (.label ⟨"end", default⟩)]

/-- The jump waits for its label, and is assembled with the address behind it. -/
theorem jumpAhead_assembled :
    ∃ image final, layout { cpu := .nmos } jumpAhead = .ok image ∧
      image.banks.map (fun bank => bank.regions.map RegionImage.bytes) = [[[0x4C, 0x03, 0x80]]] ∧
      Assembled { cpu := .nmos } jumpAhead final image := by
  -- Only the bytes are computed; everything else follows from layout having returned.
  have evaluated : ((layout { cpu := .nmos } jumpAhead).toOption.map fun image =>
      image.banks.map fun bank => bank.regions.map RegionImage.bytes) =
        some [[[0x4C, 0x03, 0x80]]] := by
    decide +kernel
  cases returned : layout { cpu := .nmos } jumpAhead with
  | error e => simp [returned, Except.toOption] at evaluated
  | ok image =>
    obtain ⟨final, assembled⟩ := layout_assembled returned
    exact ⟨image, final, rfl, by simpa [returned, Except.toOption] using evaluated, assembled⟩

end CrossAsm
