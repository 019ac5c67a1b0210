import CrossAsm.Proofs.Layout.Elements
import CrossAsm.Proofs.Memory.Capacity

/-! Pieces without gaps. Only an alignment moves the cursor past bytes that no piece takes, so where
there is none, the pieces of a region stand one after another from its start to the end of all that
is reserved in it, and so do their bytes in the image. -/

namespace CrossAsm

/-! ### How much is reserved -/

/-- The number of bytes that are reserved in a region of a bank, none if there is no such region. -/
def Bank.lengthAt (bank : Bank) (index : Nat) : Nat :=
  (bank.regions[index]?.map Buffer.length).getD 0

namespace Rom

variable {rom rom' : Rom} {pos : Pos}

/-- The number of bytes that are reserved in a region, none if there is no such region. -/
def lengthAt (rom : Rom) (bank index : Nat) : Nat :=
  (rom.bankAt bank).lengthAt index

/-- What is reserved is read off the region in its place. -/
theorem lengthAt_eq (rom : Rom) (bank index : Nat) :
    rom.lengthAt bank index = ((rom.region? bank index).map Buffer.length).getD 0 := by
  unfold lengthAt bankAt region?
  -- A bank that would be made has no regions.
  cases Entries.get? bank rom.banks with
  | none => simp [Bank.lengthAt, Bank.regions]
  | some found => rfl

/-- What is reserved in a region that is there. -/
theorem lengthAt_of_region? {bank index : Nat} {region : Buffer}
    (found : rom.region? bank index = some region) :
    rom.lengthAt bank index = region.length := by
  rw [lengthAt_eq, found]
  rfl

/-- A region that is replaced is the only one that can be of another length. -/
theorem Replaces.lengthAt {bank index : Nat} {region : Buffer}
    (replaced : rom.Replaces rom' bank index region) (bank' index' : Nat) :
    rom'.lengthAt bank' index' =
      if bank' = bank ∧ index' = index then region.length else rom.lengthAt bank' index' := by
  -- The place is the one of the region or another one.
  split
  · rename_i here
    rw [here.1, here.2, lengthAt_of_region? replaced.here]
  · rename_i elsewhere
    rw [lengthAt_eq, lengthAt_eq, replaced.other bank' index' elsewhere]

/-- Banks that look the same have as much reserved. -/
theorem lengthAt_of_view (seen : rom'.view = rom.view) : rom'.lengthAt = rom.lengthAt := by
  -- What is reserved is read off the regions as they are looked at.
  funext bank index
  rw [lengthAt_eq, lengthAt_eq, region?_eq_view, seen, ← region?_eq_view]

/-- How much is reserved does not depend on the bytes that are written. -/
theorem lengthAt_of_outline (same : rom'.outline = rom.outline) : rom'.lengthAt = rom.lengthAt := by
  -- A length is read off what the outline shows of a region.
  have through : ∀ r : Rom, ∀ bank index, r.lengthAt bank index =
      (((r.region? bank index).map Buffer.blanked).map Buffer.length).getD 0 := by
    intro r bank index
    rw [lengthAt_eq, Option.map_map]
    congr 2
    funext region
    simp [Buffer.blanked, Buffer.length]
  funext bank index
  rw [through, through, map_region?_eq_outline, same, ← map_region?_eq_outline]

/-- Making the current bank reserves nothing. -/
theorem lengthAt_entered (rom : Rom) : rom.entered.lengthAt = rom.lengthAt := by
  -- The bank that is made has no regions.
  funext bank index
  rw [lengthAt, bankAt_entered, lengthAt]

/-- A current bank in which as much is reserved. -/
theorem lengthAt_setBank (keyed : rom.Keyed) {bank : Bank}
    (ran : setBank bank rom.entered = .ok () rom')
    (number : bank.number = (rom.bankAt rom.current).number)
    (same : bank.lengthAt = (rom.bankAt rom.current).lengthAt) :
    rom'.lengthAt = rom.lengthAt := by
  -- The bank at hand is the only one that is replaced.
  funext bank' index
  rw [lengthAt, bankAt_setCurrent keyed ran number]
  split
  · rename_i here
    rw [same, here, lengthAt]
  · rfl

/-- Selecting a bank reserves nothing. -/
theorem select_lengthAt (keyed : rom.Keyed) {number : Nat} {maxsize : Option Nat}
    (ran : select number maxsize rom = .ok () rom') : rom'.lengthAt = rom.lengthAt := by
  -- The bank that is selected may be made, but it is empty then.
  simp only [select, bind_eq_ok, modify_eq_ok] at ran
  obtain ⟨_, selected, rfl, bank, middle, asked, ran⟩ := ran
  rw [currentBank_eq] at asked
  cases asked
  have numbered : Keyed { rom with current := number } := ⟨keyed.number, keyed.distinct⟩
  -- Selecting is not seen, and a bank that is given a size keeps its regions.
  have selected : rom'.lengthAt = Rom.lengthAt { rom with current := number } := by
    split at ran
    · exact lengthAt_setBank numbered ran rfl rfl
    · rw [pure_eq_ok] at ran
      obtain ⟨-, rfl⟩ := ran
      exact lengthAt_entered _
  exact selected

/-- A fill reserves nothing. -/
theorem setPadding_lengthAt (keyed : rom.Keyed) {padding : Padding}
    (ran : setPadding padding rom = .ok () rom') : rom'.lengthAt = rom.lengthAt := by
  -- Without a bank only the fill is set; with one the open region is filled anew.
  simp only [setPadding, bind_eq_ok, modify_eq_ok, get_eq_ok] at ran
  obtain ⟨_, _, rfl, _, _, ⟨rfl, rfl⟩, ran⟩ := ran
  cases found : Entries.get? rom.current rom.banks with
  | none =>
    simp only [found, pure_eq_ok, true_and] at ran
    subst ran
    rfl
  | some bank =>
    simp only [found] at ran
    have there : rom.bankAt rom.current = bank := by simp [bankAt, found]
    funext number index
    rw [lengthAt, bankAt_setBank ran, keyed.number (Entries.mem_of_get? found)]
    split
    · rename_i here
      rw [lengthAt, ← here, there]
      -- The open region has the same bytes under the new fill.
      simp only [Bank.lengthAt, Bank.regions_getElem?]
      split
      · rfl
      · split
        · cases bank.current <;> rfl
        · rfl
    · rfl

/-- Nothing is reserved yet in a region that is opened. -/
theorem openRegion_lengthAt (keyed : rom.Keyed) {org : Nat} {maxsize : Option Nat}
    (ran : openRegion org maxsize pos rom = .ok () rom') : rom'.lengthAt = rom.lengthAt := by
  -- The checks leave the banks alone; behind them the region is entered, without bytes.
  rw [openRegion, bind_currentBank] at ran
  simp only [bind_eq_ok, get_eq_ok] at ran
  obtain ⟨_, _, ⟨rfl, rfl⟩, ran⟩ := ran
  split at ran
  · simp at ran
  · rename_i free
    split at ran
    · simp at ran
    · cases overlaps : (rom.bankAt rom.current).overlapping org
          (saturatingAdd org (max (maxsize.getD 1) 1)) with
      | some other => simp [overlaps] at ran
      | none =>
        simp only [overlaps] at ran
        refine lengthAt_setBank keyed ran rfl ?_
        -- The place behind the closed regions was free, and is still without bytes.
        have none : (rom.bankAt rom.current).current = none := by simpa using free
        funext index
        simp only [Bank.lengthAt, Bank.regions_getElem?, none]
        split
        · rfl
        · split <;> rfl

end Rom

/-! ### Pieces one after another -/

namespace Piece

/-- The pieces that lie in a region, in their order. -/
def inRegion (pieces : List Piece) (bank index : Nat) : List Piece :=
  pieces.filter fun piece => piece.slot.bank = bank ∧ piece.slot.region = index

/-- Pieces one after another, from one offset of a region to another. -/
def Stacked : Nat → List Piece → Nat → Prop
  | start, [], stop => start = stop
  | start, piece :: others, stop =>
    piece.slot.offset = start ∧ Stacked (start + piece.size) others stop

/-- Pieces that end where others start are one after another together with them. -/
theorem Stacked.append {start middle stop : Nat} {first second : List Piece}
    (early : Stacked start first middle) (late : Stacked middle second stop) :
    Stacked start (first ++ second) stop := by
  -- By induction on the first pieces, behind which the others start.
  induction first generalizing start with
  | nil =>
    obtain rfl : start = middle := early
    exact late
  | cons piece others ih => exact ⟨early.1, ih early.2⟩

/-- Pieces one after another take as many bytes as lie between the two offsets. -/
theorem Stacked.length_flatMap {start stop : Nat} {pieces : List Piece}
    {bytesOf : Piece → List UInt8} (stacked : Stacked start pieces stop)
    (sized : ∀ piece ∈ pieces, (bytesOf piece).length = piece.size) :
    start + (pieces.flatMap bytesOf).length = stop := by
  -- By induction on the pieces, each of which is as long as it says.
  induction pieces generalizing start with
  | nil => exact stacked
  | cons piece others ih =>
    obtain ⟨-, rest⟩ := stacked
    have later := ih rest fun other inside => sized other (List.mem_cons_of_mem _ inside)
    have here := sized piece List.mem_cons_self
    rw [List.flatMap_cons, List.length_append]
    omega

/-- Pieces one after another end within the last offset. -/
theorem Stacked.le {start stop : Nat} {pieces : List Piece} (stacked : Stacked start pieces stop) :
    start ≤ stop ∧ ∀ piece ∈ pieces, piece.slot.offset + piece.size ≤ stop := by
  -- By induction on the pieces; the offset only grows.
  induction pieces generalizing start with
  | nil =>
    obtain rfl : start = stop := stacked
    exact ⟨Nat.le_refl _, by simp⟩
  | cons piece others ih =>
    obtain ⟨rfl, rest⟩ := stacked
    obtain ⟨least, each⟩ := ih rest
    refine ⟨Nat.le_trans (Nat.le_add_right ..) least, fun other inside => ?_⟩
    rcases List.mem_cons.1 inside with rfl | later
    · exact least
    · exact each other later

/-- Bytes that have those of each piece in its place have them one after another. -/
theorem Stacked.drop_eq {start stop : Nat} {pieces : List Piece} {bytes : List UInt8}
    {bytesOf : Piece → List UInt8} (stacked : Stacked start pieces stop)
    (slice : ∀ piece ∈ pieces, (bytes.drop piece.slot.offset).take piece.size = bytesOf piece) :
    bytes.drop start = pieces.flatMap bytesOf ++ bytes.drop stop := by
  -- Piece by piece, the bytes are split where a piece ends.
  induction pieces generalizing start with
  | nil =>
    obtain rfl : start = stop := stacked
    rfl
  | cons piece others ih =>
    obtain ⟨rfl, rest⟩ := stacked
    have later := ih rest fun other inside => slice other (List.mem_cons_of_mem _ inside)
    calc bytes.drop piece.slot.offset
      _ = (bytes.drop piece.slot.offset).take piece.size ++
          (bytes.drop piece.slot.offset).drop piece.size := (List.take_append_drop ..).symm
      _ = bytesOf piece ++ bytes.drop (piece.slot.offset + piece.size) := by
        rw [slice piece List.mem_cons_self, List.drop_drop]
      _ = (piece :: others).flatMap bytesOf ++ bytes.drop stop := by
        rw [later, List.flatMap_cons, List.append_assoc]

end Piece

/-- In every region the pieces stand one after another, from its start to the end of what is
reserved. -/
def Packed (pieces : List Piece) (rom : Rom) : Prop :=
  ∀ bank index, Piece.Stacked 0 (Piece.inRegion pieces bank index) (rom.lengthAt bank index)

namespace Packed

variable {pieces : List Piece} {rom rom' : Rom}

/-- At the start there are no pieces, and nothing is reserved. -/
theorem start : Packed [] {} :=
  fun _ _ => rfl

/-- Pieces stay packed as long as nothing is reserved. -/
theorem stays (packed : Packed pieces rom) (same : rom'.lengthAt = rom.lengthAt) :
    Packed pieces rom' := by
  -- How much is reserved decides what the pieces may be.
  intro bank index
  rw [same]
  exact packed bank index

/-- A piece that takes the place of the cursor stands behind all the others of its region. -/
theorem add (packed : Packed pieces rom) (keyed : rom.Keyed) (content : Content) {slot : Slot}
    {region new : Buffer} (opened : rom.openSlot? = some (slot, region))
    (replaced : rom.Replaces rom' slot.bank slot.region new)
    (grown : new.length = region.length + content.size) :
    Packed (pieces ++ [⟨slot, content⟩]) rom' := by
  -- Its own region grows by the piece, and all others stay.
  obtain ⟨found, offset⟩ := Rom.region?_openSlot keyed opened
  have before := Rom.lengthAt_of_region? found
  intro bank index
  rw [replaced.lengthAt, Piece.inRegion, List.filter_append]
  by_cases here : bank = slot.bank ∧ index = slot.region
  · obtain ⟨rfl, rfl⟩ := here
    have stacked := packed slot.bank slot.region
    rw [before] at stacked
    rw [if_pos ⟨rfl, rfl⟩, grown]
    exact stacked.append (by simp [Piece.Stacked, Piece.size, offset])
  · -- In every other region there are the pieces that there were.
    have elsewhere : ¬(slot.bank = bank ∧ slot.region = index) :=
      fun same => here ⟨same.1.symm, same.2.symm⟩
    rw [if_neg here, List.filter_singleton]
    simpa [elsewhere, Piece.inRegion] using packed bank index

end Packed

/-! ### The walk -/

/-- Whether a statement moves the cursor on to a multiple. -/
def Stmt.aligns : Stmt → Bool
  | .item (.directive (.align _) _) => true
  | _ => false

namespace Layout

variable {session : Session} {state state' : Layout} {pieces : List Piece}

/-- Trying an item reserves nothing. -/
theorem retry_packed {item : Deferred} (packed : Packed pieces state.rom) (keyed : state.rom.Keyed)
    (ran : retry session item state = .ok () state') : Packed pieces state'.rom :=
  retry_rom ran packed fun wrote =>
    packed.stays (Rom.lengthAt_of_outline (Rom.writeAt_outline keyed wrote))

/-- A directive that puts no bytes into a bank reserves nothing, unless it aligns the cursor. -/
theorem request_lengthAt {d : Directive} {pos : Pos} {request : Rom.Request} {rom rom' : Rom}
    (keyed : rom.Keyed) (requested : d.request? pos = some request)
    (gapless : Stmt.aligns (.item (.directive d pos)) = false)
    (ran : request.step rom = .ok () rom') : rom'.lengthAt = rom.lengthAt := by
  -- Each directive has its own request.
  cases d with
  | ramOrg | ramEnd | incbin | vector => cases requested
  | romOrg => cases requested; exact Rom.openRegion_lengthAt keyed ran
  | romEnd => cases requested; exact Rom.lengthAt_of_view (Rom.closeRegion_run keyed ran).2
  | romBank => cases requested; exact Rom.select_lengthAt keyed ran
  | romBanksize =>
    cases requested
    simp only [Rom.Request.step, Rom.setBanksize, modify_eq_ok] at ran
    exact Rom.lengthAt_of_view (ran ▸ rfl)
  | setPad => cases requested; exact Rom.setPadding_lengthAt keyed ran
  | align => cases gapless

/-- Space that is reserved stands behind what was reserved before. -/
theorem reserve_packed (packed : Packed pieces state.rom) (keyed : state.rom.Keyed)
    (content : Content) {pos : Pos} {slot : Slot} {address : UInt16} {rom : Rom}
    (room : addressSpace + content.size ≤ Word.count)
    (reserved : Rom.reserve content.size pos state.rom = .ok (slot, address) rom) :
    Packed (pieces ++ (state.rom.openSlot?.map fun (slot, _) => Piece.mk slot content).toList)
        rom ∧ rom.Keyed := by
  -- The slot is where the cursor stands, which is behind all that was reserved.
  obtain ⟨region, opened, -, -, replaced⟩ := Rom.reserve_run keyed room reserved
  rw [opened]
  refine ⟨packed.add keyed content opened replaced ?_, replaced.keyed⟩
  simp [Buffer.extended, Buffer.length]

/-- Asking for an address reserves nothing. -/
theorem address_lengthAt {pos : Pos} {address : UInt16} {rom rom' : Rom} (keyed : rom.Keyed)
    (asked : Rom.address pos rom = .ok address rom') : rom'.lengthAt = rom.lengthAt := by
  -- The open region is put back as it was.
  obtain ⟨slot, region, region', opened, answered, replaced, -⟩ := Rom.onRegion_run keyed asked
  simp only [except_bind_eq_ok, except_pure_eq_ok, Prod.mk.injEq] at answered
  obtain ⟨_, -, -, rfl⟩ := answered
  funext bank index
  rw [replaced.lengthAt]
  split
  · rename_i here
    rw [here.1, here.2, Rom.lengthAt_of_region? (Rom.region?_openSlot keyed opened).1]
  · rfl

/-- A statement other than an alignment keeps the pieces packed. -/
theorem Step.packed {s : Stmt} (step : Step session state s state') (packed : Packed pieces state.rom)
    (gapless : s.aligns = false) (keyed : state.rom.Keyed) :
    Packed (pieces ++ (state.pieceAt s).toList) state'.rom := by
  -- A statement without contents is no piece, so that the pieces are those from before.
  have passed : s.content? = none → state'.rom.lengthAt = state.rom.lengthAt →
      Packed (pieces ++ (state.pieceAt s).toList) state'.rom := by
    intro nothing same
    rw [pieceAt, nothing, Option.bind_none, Option.toList_none, List.append_nil]
    exact packed.stays same
  cases step with
  -- Opening and closing regions and windows puts nothing down, and neither do variables in RAM.
  | begin | finish | openWindow | closeWindow => exact passed rfl rfl
  | fixed plain | free plain => exact passed (if_neg plain) rfl
  | label asked => exact passed rfl (address_lengthAt keyed asked)
  | @instruction line mode _ _ _ _ chosen room reserved tried =>
    -- An instruction takes space behind the last piece, and may be written at once.
    obtain ⟨grown, keyed⟩ := reserve_packed packed keyed (.instruction line mode) room reserved
    simpa [pieceAt, Stmt.content?, chosen] using retry_packed grown keyed tried
  | @filled var size _ _ _ _ filled sized room reserved _ tried =>
    -- So does a variable with an initializer.
    obtain ⟨grown, keyed⟩ := reserve_packed packed keyed (.data var size) room reserved
    simpa [pieceAt, Stmt.content?, filled, sized] using retry_packed grown keyed tried
  | @request d pos _ _ requested ran =>
    -- The other directives have no contents.
    have nothing : Stmt.content? (.item (.directive d pos)) = none := by
      cases d <;> first | rfl | cases requested
    exact passed nothing (request_lengthAt keyed requested gapless ran)
  | @incbin _ bytes _ _ _ wrote =>
    -- Bytes that are given are written into the space that they take.
    obtain ⟨slot, region, opened, replaced⟩ := Rom.write_run keyed wrote
    rw [(Rom.region?_openSlot keyed opened).2, Buffer.writeAt_extended] at replaced
    have added := packed.add keyed (.raw bytes) opened replaced
      (by simp [Buffer.length, Content.size])
    simpa [pieceAt, Stmt.content?, opened] using added
  | vector tried => simpa [pieceAt, Stmt.content?] using retry_packed packed keyed tried

/-- Without an alignment the walk packs all pieces that it meets. -/
theorem walk_packed {stmts : List Stmt} (packed : Packed pieces state.rom)
    (gapless : ∀ s ∈ stmts, s.aligns = false)
    (tracks : Tracks session state.addresses pieces state.pending state.rom)
    (ran : walk session stmts state = .ok () state') :
    Packed (pieces ++ piecesFrom session stmts state) state'.rom := by
  -- By induction on the statements; each adds at most the piece that it puts into a region.
  induction stmts generalizing state pieces with
  | nil =>
    rw [walk, pure_eq_ok] at ran
    simpa [piecesFrom, visits, ← ran.2] using packed
  | cons first others ih =>
    simp only [walk, bind_eq_ok] at ran
    obtain ⟨_, next, stepped, ran⟩ := ran
    have step := stmt_step stepped
    have here := step.packed packed (gapless first List.mem_cons_self) tracks.keyed
    have rest := ih here (fun s inside => gapless s (List.mem_cons_of_mem _ inside))
      (step.tracks tracks) ran
    rwa [piecesFrom_cons stepped, ← List.append_assoc]

/-- The pieces that lie in a region after the whole walk, in their order. -/
def piecesIn (session : Session) (stmts : List Stmt) (bank index : Nat) : List Piece :=
  Piece.inRegion (piecesFrom session stmts {}) bank index

end Layout

/-! ### The image -/

/-- Behind the last piece of a region there is fill. -/
theorem Buffer.drop_assembled {pieces : List Piece} {bytesOf : Piece → List UInt8}
    (sized : ∀ piece ∈ pieces, (bytesOf piece).length = piece.size) {bank index stop : Nat}
    (stacked : Piece.Stacked 0 (Piece.inRegion pieces bank index) stop) (region : Buffer) :
    (region.assembled pieces bytesOf bank index).drop stop =
      (List.range' stop (region.extent - stop)).map region.padding.byteAt := by
  -- No piece reaches behind the offset, so that the fill is all there is.
  have nothing : ∀ offset, stop ≤ offset → (pieces.findSome? fun piece =>
      piece.byteAt? (bytesOf piece) bank index offset) = none := by
    intro offset behind
    refine List.findSome?_eq_none_iff.2 fun piece met => ?_
    -- A piece of another region has no byte in this one.
    unfold Piece.byteAt?
    split
    · -- A piece of the region ends before the offset.
      rename_i place
      have listed : piece ∈ Piece.inRegion pieces bank index :=
        List.mem_filter.2 ⟨met, decide_eq_true ⟨place.1, place.2.1⟩⟩
      have ends := stacked.le.2 piece listed
      rw [List.getElem?_eq_none_iff, sized piece met]
      omega
    · rfl
  refine List.ext_getElem? fun k => ?_
  rw [List.getElem?_drop, Buffer.assembled, List.getElem?_map, List.getElem?_map]
  -- Both lists have the fill up to the extent, and nothing behind.
  by_cases inside : stop + k < region.extent
  · rw [List.getElem?_range inside, List.getElem?_range' (by omega), Option.map_some,
      Option.map_some, nothing _ (Nat.le_add_right ..), Nat.one_mul]
    rfl
  · rw [List.getElem?_eq_none (by rw [List.length_range]; omega),
      List.getElem?_eq_none (by rw [List.length_range']; omega)]
    rfl

/-- A region of an image in which the pieces are packed holds their bytes one after another, and fill
behind them. -/
theorem Assembled.exists_stacked {session : Session} {stmts : List Stmt} {final : Layout}
    {image : Image} (assembled : Assembled session stmts final image)
    (packed : Packed (Layout.piecesFrom session stmts {}) final.rom) {bank : BankImage}
    (inside : bank ∈ image.banks) {index : Nat} {region : RegionImage}
    (found : bank.regions[index]? = some region) :
    ∃ bytesOf stop, Piece.Stacked 0 (Layout.piecesIn session stmts bank.number index) stop ∧
      (∀ piece ∈ Layout.piecesIn session stmts bank.number index,
        piece.content.Assembles session final.addresses
          (UInt16.ofNat (region.org + piece.slot.offset)) (bytesOf piece)) ∧
      region.bytes = (Layout.piecesIn session stmts bank.number index).flatMap bytesOf ++
        (List.range' stop (region.bytes.length - stop)).map region.padding.byteAt := by
  -- The pieces of the region stand in its bytes one after another, and drop to the fill.
  obtain ⟨bytesOf, fills, banks⟩ := assembled.bytes
  have keyed := (Layout.walk_tracks (Tracks.start session) assembled.walked).keyed
  have sized : ∀ piece ∈ Layout.piecesFrom session stmts {},
      (bytesOf piece).length = piece.size := by
    intro piece met
    obtain ⟨_, -, -, assembles⟩ := fills piece met
    exact assembles.length
  -- The region of the image is made from the one in the same place of the banks.
  rw [banks] at inside
  obtain ⟨⟨key, made⟩, there, rfl⟩ := List.mem_map.1 inside
  have placed : final.rom.region? made.number index = made.regions[index]? := by
    rw [Rom.region?, keyed.number there, Entries.get?_of_mem keyed.distinct there]
    rfl
  simp only [Bank.assembledImage, List.getElem?_mapIdx, Option.map_eq_some_iff] at found
  obtain ⟨buffer, here, rfl⟩ := found
  rw [here] at placed
  -- Each piece of the region is assembled where it lies.
  have each : ∀ piece ∈ Layout.piecesIn session stmts made.number index,
      piece.content.Assembles session final.addresses
        (UInt16.ofNat (buffer.org + piece.slot.offset)) (bytesOf piece) ∧
      ((buffer.assembled (Layout.piecesFrom session stmts {}) bytesOf made.number index).drop
        piece.slot.offset).take piece.size = bytesOf piece := by
    intro piece listed
    obtain ⟨met, place⟩ := List.mem_filter.1 listed
    obtain ⟨number, place⟩ := of_decide_eq_true place
    obtain ⟨other, again, lies, assembles⟩ := fills piece met
    rw [number, place, placed, Option.some.injEq] at again
    subst again
    have slice := Buffer.assembled_slice assembled.apart sized met lies
    rw [number, place] at slice
    exact ⟨assembles, slice⟩
  -- The pieces are packed, and what is behind them is fill.
  have stacked := packed made.number index
  have length : (buffer.assembled (Layout.piecesFrom session stmts {}) bytesOf made.number
      index).length = buffer.extent := by
    rw [Buffer.assembled, List.length_map, List.length_range]
  refine ⟨bytesOf, _, stacked, fun piece listed => (each piece listed).1, ?_⟩
  have whole := stacked.drop_eq fun piece listed => (each piece listed).2
  rw [List.drop_zero, Buffer.drop_assembled sized stacked, ← length] at whole
  exact whole

end CrossAsm
