import CrossAsm.Proofs.Layout.Pieces

/-! Pieces on their way into the image: each one that was met is written already or waits for
addresses, none shares a byte with another, and nothing else is written. -/

namespace CrossAsm

namespace Buffer

/-- Bytes stand in a region from an offset on. -/
def Holds (region : Buffer) (offset : Nat) (bytes : List UInt8) : Prop :=
  ∀ i byte, bytes[i]? = some byte → region.data[offset + i]? = some (some byte)

/-- Writing changes no length. -/
@[simp]
theorem length_writeAt (region : Buffer) (offset : Nat) (bytes : List UInt8) :
    (region.writeAt offset bytes).length = region.length := by
  -- Bytes that do not fit are not written.
  unfold writeAt
  split
  · rename_i fits
    simp only [length] at fits ⊢
    simp only [List.length_append, List.length_take, List.length_map, List.length_drop]
    omega
  · rfl

/-- Writing moves no region. -/
@[simp]
theorem org_writeAt (region : Buffer) (offset : Nat) (bytes : List UInt8) :
    (region.writeAt offset bytes).org = region.org := by
  -- Whether the bytes fit or not, only the data is changed.
  unfold writeAt
  split <;> rfl

/-- After writing, the new bytes stand where they were put and all others stay. -/
theorem getElem?_writeAt {region : Buffer} {offset : Nat} {bytes : List UInt8}
    (fits : offset + bytes.length ≤ region.length) (i : Nat) :
    (region.writeAt offset bytes).data[i]? =
      if offset ≤ i ∧ i < offset + bytes.length then bytes[i - offset]?.map some
      else region.data[i]? := by
  rw [writeAt, if_pos fits]
  simp only [length] at fits
  have taken : (region.data.take offset).length = offset := by
    rw [List.length_take]
    omega
  -- Before, inside and behind the bytes, the three parts of the new contents follow each other.
  by_cases before : i < offset
  · rw [List.append_assoc, List.getElem?_append_left (by omega), List.getElem?_take_of_lt before,
      if_neg (by omega)]
  · rw [List.append_assoc, List.getElem?_append_right (by omega), taken]
    by_cases inside : i < offset + bytes.length
    · rw [List.getElem?_append_left (by rw [List.length_map]; omega), List.getElem?_map,
        if_pos ⟨by omega, inside⟩]
    · rw [List.getElem?_append_right (by rw [List.length_map]; omega), List.length_map,
        List.getElem?_drop, if_neg (by omega)]
      congr 1
      omega

/-- Bytes that are written stand where they were put. -/
theorem holds_writeAt {region : Buffer} {offset : Nat} {bytes : List UInt8}
    (fits : offset + bytes.length ≤ region.length) :
    (region.writeAt offset bytes).Holds offset bytes := by
  -- Each byte is looked up at its place among the new ones.
  intro i byte here
  have inside := (List.getElem?_eq_some_iff.1 here).1
  rw [getElem?_writeAt fits, if_pos ⟨by omega, by omega⟩, Nat.add_sub_cancel_left, here,
    Option.map_some]

/-- Bytes of which none is written over stay where they are. -/
theorem Holds.writeAt {region : Buffer} {place offset : Nat} {old bytes : List UInt8}
    (holds : region.Holds place old) (fits : offset + bytes.length ≤ region.length)
    (apart : ∀ i < old.length, ¬(offset ≤ place + i ∧ place + i < offset + bytes.length)) :
    (region.writeAt offset bytes).Holds place old := by
  -- Each byte of the old ones lies outside what is written.
  intro i byte here
  have inside := (List.getElem?_eq_some_iff.1 here).1
  rw [getElem?_writeAt fits, if_neg (apart i inside), holds i byte here]

/-- Bytes written into space that was just reserved for them stand behind all the others. -/
theorem writeAt_extended (region : Buffer) (bytes : List UInt8) :
    (region.extended bytes.length).writeAt region.length bytes =
      { region with data := region.data ++ bytes.map some } := by
  -- The space begins where the data ended.
  simp [writeAt, extended, length]

end Buffer

/-- What stands in the space of a content when it is reserved: nothing, unless the bytes are known
as they are. -/
def Content.initial : Content → List (Option UInt8)
  | .raw bytes => bytes.map some
  | content => List.replicate content.size none

/-- The space of a content is as long as the content. -/
@[simp]
theorem Content.length_initial (content : Content) : content.initial.length = content.size := by
  -- A content that is known is its bytes, and one that is not a run of gaps.
  cases content <;> simp [initial, size]

namespace Piece

/-- The address of a piece in its region. -/
def address (piece : Piece) (region : Buffer) : UInt16 :=
  UInt16.ofNat (region.org + piece.slot.offset)

/-- Writing into a region leaves the address of a piece. -/
@[simp]
theorem address_writeAt (piece : Piece) (region : Buffer) (offset : Nat) (bytes : List UInt8) :
    piece.address (region.writeAt offset bytes) = piece.address region := by
  -- The address is counted from where the region starts.
  rw [address, Buffer.org_writeAt, address]

/-- A piece lies in a region, and starts at an address unless its bytes are known as they are. -/
structure LiesIn (piece : Piece) (region : Buffer) : Prop where
  /-- It ends where the region does, or before. -/
  fits : piece.slot.offset + piece.size ≤ region.length
  /-- It starts in the address space. -/
  addressed : (∃ bytes, piece.content = .raw bytes) ∨
    region.org + piece.slot.offset < addressSpace

/-- A piece has its place in a region, where its bytes stand or for which it waits. -/
def Stored (session : Session) (addresses : Addresses) (todo : List Deferred) (rom : Rom)
    (piece : Piece) : Prop :=
  ∃ region, rom.region? piece.slot.bank piece.slot.region = some region ∧ piece.LiesIn region ∧
    ((∃ bytes, piece.content.Assembles session addresses (piece.address region) bytes ∧
        region.Holds piece.slot.offset bytes) ∨
      ∃ item ∈ todo, piece.deferred? (piece.address region) = some item)

/-- A piece still lies in a region into which something is written. -/
theorem LiesIn.write {piece : Piece} {region : Buffer} (lies : piece.LiesIn region) (offset : Nat)
    (bytes : List UInt8) : piece.LiesIn (region.writeAt offset bytes) := by
  -- Neither the length nor the origin of the region changes.
  refine ⟨?_, ?_⟩
  · rw [Buffer.length_writeAt]
    exact lies.fits
  · rw [Buffer.org_writeAt]
    exact lies.addressed

/-- An item waits for a piece, or is no piece at all. -/
def WaitsIn (rom : Rom) (pieces : List Piece) (item : Deferred) : Prop :=
  (∃ kind name pos, item = .vector kind name pos) ∨
    ∃ piece ∈ pieces, ∃ region, rom.region? piece.slot.bank piece.slot.region = some region ∧
      piece.deferred? (piece.address region) = some item

end Piece

/-- The pieces met so far are in the banks or on their way, and nothing else is written there. -/
structure Tracks (session : Session) (addresses : Addresses) (pieces : List Piece)
    (todo : List Deferred) (rom : Rom) : Prop where
  /-- Banks stand under their numbers. -/
  keyed : rom.Keyed
  /-- Each piece is written or waits. -/
  stored : ∀ piece ∈ pieces, piece.Stored session addresses todo rom
  /-- No two pieces share a byte. -/
  apart : pieces.Pairwise Piece.Apart
  /-- Every byte that is written belongs to a piece. -/
  covered : ∀ {bank index offset : Nat} {region : Buffer} {byte : UInt8},
    rom.region? bank index = some region → region.data[offset]? = some (some byte) →
    ∃ piece ∈ pieces, piece.Covers bank index offset
  /-- What waits is a piece. -/
  waiting : ∀ item ∈ todo, Piece.WaitsIn rom pieces item

/-- Regions keep their place, their start and all that stands in them. -/
def Rom.Extends (rom rom' : Rom) : Prop :=
  ∀ ⦃bank index : Nat⦄ ⦃region : Buffer⦄, rom.region? bank index = some region →
    ∃ region', rom'.region? bank index = some region' ∧ region'.org = region.org ∧
      ∃ tail, region'.data = region.data ++ tail

/-- Regions that only grow keep all that stands in them. -/
theorem Rom.Keeps.extends {rom rom' : Rom} (keeps : rom.Keeps rom') : rom.Extends rom' := by
  -- A region that was there cannot be gone, and empty space comes behind what it holds.
  intro bank index region found
  have grown := keeps.grows bank index
  rw [found] at grown
  cases after : rom'.region? bank index with
  | none =>
    rw [after] at grown
    exact grown.elim
  | some region' =>
    rw [after] at grown
    obtain ⟨org, gap, data⟩ := grown
    exact ⟨region', rfl, org, _, data⟩

/-- A region behind which something is put keeps what stands in it. -/
theorem Rom.Replaces.extends {rom rom' : Rom} {bank index : Nat} {region : Buffer}
    {tail : List (Option UInt8)} (found : rom.region? bank index = some region)
    (replaced : rom.Replaces rom' bank index { region with data := region.data ++ tail }) :
    rom.Extends rom' := by
  -- The region itself goes on behind its old end, and all others are the same.
  intro bank' index' old before
  by_cases here : bank' = bank ∧ index' = index
  · obtain ⟨rfl, rfl⟩ := here
    cases found.symm.trans before
    exact ⟨_, replaced.here, rfl, _, rfl⟩
  · rw [← replaced.other bank' index' here] at before
    exact ⟨old, before, rfl, [], by simp⟩

/-- Regions that keep what stands in them keep pieces and what waits for them. -/
theorem Piece.Stored.extends {session : Session} {old new : Addresses} {todo : List Deferred}
    {rom rom' : Rom} {piece : Piece} (extended : old.ExtendedBy new) (extends_ : rom.Extends rom')
    (stored : piece.Stored session old todo rom) : piece.Stored session new todo rom' := by
  -- The region is found again, with the same origin and more behind it.
  obtain ⟨region, found, lies, state⟩ := stored
  obtain ⟨region', found', org, tail, data⟩ := extends_ found
  have same : piece.address region' = piece.address region := by rw [address, org, address]
  refine ⟨region', found', ⟨?_, ?_⟩, ?_⟩
  · have fits := lies.fits
    simp only [Buffer.length, data, List.length_append] at fits ⊢
    omega
  · rw [org]
    exact lies.addressed
  · rw [same]
    refine state.imp_left ?_
    rintro ⟨bytes, assembles, holds⟩
    refine ⟨bytes, assembles.extended extended, ?_⟩
    -- What stands in the region is not moved by what comes behind it.
    intro i byte here
    have stands := holds i byte here
    rw [data, List.getElem?_append_left (List.getElem?_eq_some_iff.1 stands).1, stands]

/-- Regions that keep their place and start keep what waits. -/
theorem Piece.WaitsIn.keeps {rom rom' : Rom} {pieces : List Piece} {item : Deferred}
    (starts : ∀ {bank index : Nat} {region : Buffer}, rom.region? bank index = some region →
      ∃ region', rom'.region? bank index = some region' ∧ region'.org = region.org)
    (waits : WaitsIn rom pieces item) : WaitsIn rom' pieces item := by
  refine waits.imp_right ?_
  -- An instruction waits with its address, which depends on the start of the region only.
  rintro ⟨piece, met, region, found, deferred⟩
  obtain ⟨region', found', org⟩ := starts found
  have same : piece.address region' = piece.address region := by rw [address, org, address]
  exact ⟨piece, met, region', found', same ▸ deferred⟩

/-- A region replaced by one of the same start keeps the starts of all. -/
theorem Rom.Replaces.starts {rom rom' : Rom} {bank index : Nat} {old new : Buffer}
    (replaced : rom.Replaces rom' bank index new) (found : rom.region? bank index = some old)
    (org : new.org = old.org) {bank' index' : Nat} {region : Buffer}
    (there : rom.region? bank' index' = some region) :
    ∃ region', rom'.region? bank' index' = some region' ∧ region'.org = region.org := by
  -- The place is the one of the replaced region, or of another one.
  by_cases here : bank' = bank ∧ index' = index
  · obtain ⟨rfl, rfl⟩ := here
    cases found.symm.trans there
    exact ⟨new, replaced.here, org⟩
  · rw [← replaced.other bank' index' here] at there
    exact ⟨region, there, rfl⟩

/-- Regions that keep what stands in them keep what waits. -/
theorem Piece.WaitsIn.extends {rom rom' : Rom} {pieces : List Piece} {item : Deferred}
    (extends_ : rom.Extends rom') (waits : WaitsIn rom pieces item) :
    WaitsIn rom' pieces item := by
  -- The region of the item is still there, and starts where it did.
  refine waits.keeps fun found => ?_
  obtain ⟨region', found', org, -⟩ := extends_ found
  exact ⟨region', found', org⟩

/-- A piece is stored as well when more is waiting. -/
theorem Piece.Stored.more {session : Session} {addresses : Addresses} {todo more : List Deferred}
    {rom : Rom} {piece : Piece} (stored : piece.Stored session addresses todo rom) :
    piece.Stored session addresses (todo ++ more) rom := by
  -- Written pieces are written; one that waits finds its item further left.
  obtain ⟨region, found, fits, state⟩ := stored
  refine ⟨region, found, fits, state.imp_right ?_⟩
  rintro ⟨item, waits, deferred⟩
  exact ⟨item, List.mem_append_left _ waits, deferred⟩

/-- A piece whose content is put behind a region is stored there, and waits if it has to. -/
theorem Piece.stored_behind {session : Session} {addresses : Addresses} (todo : List Deferred)
    {rom : Rom} {piece : Piece} {region : Buffer} (offset : piece.slot.offset = region.length)
    (addressed : (∃ bytes, piece.content = .raw bytes) ∨ region.cursor < addressSpace)
    (found : rom.region? piece.slot.bank piece.slot.region =
      some { region with data := region.data ++ piece.content.initial }) :
    piece.Stored session addresses
      (todo ++ (piece.deferred? (UInt16.ofNat region.cursor)).toList) rom := by
  -- The address given out is the one the piece has in its region.
  have cursor : UInt16.ofNat region.cursor =
      piece.address { region with data := region.data ++ piece.content.initial } := by
    rw [address, Buffer.cursor, offset]
  refine ⟨_, found, ⟨?_, ?_⟩, ?_⟩
  · simp [Buffer.length, offset, size]
  · rw [offset]
    exact addressed
  · rw [cursor]
    obtain ⟨slot, content⟩ := piece
    cases content with
    | instruction line mode => exact .inr ⟨_, by simp [deferred?], rfl⟩
    | data var size => exact .inr ⟨_, by simp [deferred?], rfl⟩
    | raw bytes =>
      -- Bytes as they are stand there at once.
      refine .inl ⟨bytes, .raw bytes, fun i byte here => ?_⟩
      simp only at offset
      simp only [Content.initial, offset, Buffer.length]
      rw [List.getElem?_append_right (Nat.le_add_right ..), Nat.add_sub_cancel_left,
        List.getElem?_map, here, Option.map_some]

/-- A piece that starts where a region ends shares no byte with one that is stored. -/
theorem Piece.Stored.apart_behind {session : Session} {addresses : Addresses}
    {todo : List Deferred} {rom : Rom} {piece new : Piece} {region : Buffer}
    (stored : piece.Stored session addresses todo rom)
    (found : rom.region? new.slot.bank new.slot.region = some region)
    (offset : new.slot.offset = region.length) : piece.Apart new := by
  -- The stored piece ends inside the region, and so before the new one starts.
  obtain ⟨old, before, lies, -⟩ := stored
  have fits := lies.fits
  rintro bank index place ⟨rfl, rfl, least, less⟩ ⟨sameBank, sameRegion, behind, -⟩
  rw [← sameBank, ← sameRegion, found] at before
  cases before
  omega

/-- A piece does not miss an item that waits for something else. -/
theorem Piece.Stored.drop {session : Session} {addresses : Addresses} {early late : List Deferred}
    {rom : Rom} {piece : Piece} {item : Deferred}
    (foreign : ∀ address, piece.deferred? address ≠ some item)
    (stored : piece.Stored session addresses (early ++ item :: late) rom) :
    piece.Stored session addresses (early ++ late) rom := by
  -- What the piece waits for is another item, so that it is still among the rest.
  obtain ⟨region, found, lies, state⟩ := stored
  refine ⟨region, found, lies, state.imp_right ?_⟩
  rintro ⟨other, inside, deferred⟩
  refine ⟨other, ?_, deferred⟩
  have different : other ≠ item := by
    rintro rfl
    exact foreign _ deferred
  simp only [List.mem_append, List.mem_cons, different, false_or] at inside ⊢
  exact inside

/-- A piece stays as it is when another one, with which it shares no byte, is written. -/
theorem Piece.Stored.write {session : Session} {addresses : Addresses} {todo : List Deferred}
    {rom rom' : Rom} {other piece : Piece} {region : Buffer} {bytes : List UInt8}
    (stored : other.Stored session addresses todo rom) (away : other.Apart piece)
    (found : rom.region? piece.slot.bank piece.slot.region = some region)
    (size : bytes.length = piece.size) (fits : piece.slot.offset + bytes.length ≤ region.length)
    (replaced : rom.Replaces rom' piece.slot.bank piece.slot.region
      (region.writeAt piece.slot.offset bytes)) :
    other.Stored session addresses todo rom' := by
  -- It lies in the region that is written, or in another one, which stays.
  obtain ⟨old, before, lies, state⟩ := stored
  by_cases here : other.slot.bank = piece.slot.bank ∧ other.slot.region = piece.slot.region
  · -- In the same region it lies before or behind what is written.
    rw [here.1, here.2, found] at before
    cases before
    refine ⟨_, here.1 ▸ here.2 ▸ replaced.here, lies.write _ _, ?_⟩
    rw [address_writeAt]
    refine state.imp_left ?_
    rintro ⟨content, fills, holds⟩
    refine ⟨content, fills, holds.writeAt fits fun i inside => ?_⟩
    rintro ⟨least, less⟩
    have sized := fills.length
    refine away _ _ (other.slot.offset + i) ⟨rfl, rfl, Nat.le_add_right .., ?_⟩
      ⟨here.1.symm, here.2.symm, least, by omega⟩
    simp only [Piece.size]
    omega
  · rw [← replaced.other _ _ here] at before
    exact ⟨old, before, lies, state⟩

/-- What waits for a piece waits as well when more pieces are met. -/
theorem Piece.WaitsIn.more {rom : Rom} {pieces more : List Piece} {item : Deferred}
    (waits : WaitsIn rom pieces item) : WaitsIn rom (pieces ++ more) item := by
  -- The piece that it waits for is one of the first.
  refine waits.imp_right ?_
  rintro ⟨piece, met, rest⟩
  exact ⟨piece, List.mem_append_left _ met, rest⟩

namespace Tracks

variable {session : Session} {addresses : Addresses} {pieces : List Piece} {todo : List Deferred}
  {rom rom' : Rom}

/-- At the start there is nothing. -/
theorem start (session : Session) : Tracks session [] [] [] {} := by
  -- No bank, no piece and no item: each fact is about nothing.
  refine ⟨⟨?_, .nil⟩, ?_, .nil, ?_, ?_⟩
  · intro key bank inside
    cases inside
  · intro piece met
    cases met
  · intro bank index offset region byte found
    cases found
  · intro item waits
    cases waits

/-- Steps in which regions only grow and addresses are only added. -/
theorem keeps {new : Addresses} (tracks : Tracks session addresses pieces todo rom)
    (extended : addresses.ExtendedBy new) (keeps : rom.Keeps rom') :
    Tracks session new pieces todo rom' := by
  -- Pieces and what waits follow the regions that grow.
  refine ⟨keeps.keyed, fun piece met => (tracks.stored piece met).extends extended keeps.extends,
    tracks.apart, ?_, fun item waits => (tracks.waiting item waits).extends keeps.extends⟩
  -- A byte that is written was written before, for what is new is empty.
  intro bank index offset region byte found written
  have grown := keeps.grows bank index
  rw [found] at grown
  cases before : rom.region? bank index with
  | none =>
    rw [before] at grown
    obtain ⟨gap, blank⟩ := grown
    rw [blank, List.getElem?_replicate] at written
    split at written <;> cases written
  | some old =>
    rw [before] at grown
    obtain ⟨-, gap, data⟩ := grown
    rw [data, List.getElem?_append, List.getElem?_replicate] at written
    split at written
    · exact tracks.covered before written
    · split at written <;> cases written

/-- Two different pieces share no byte. -/
theorem apart_of_ne (tracks : Tracks session addresses pieces todo rom) {a b : Piece}
    (first : a ∈ pieces) (second : b ∈ pieces) (different : a ≠ b) : a.Apart b := by
  -- One of the two was met before the other, and sharing no byte is mutual.
  have apart : ∀ ⦃x⦄, x ∈ pieces → ∀ ⦃y⦄, y ∈ pieces → x ≠ y → x.Apart y := by
    refine List.Pairwise.forall_of_forall_of_flip (fun x _ same => absurd rfl same) ?_ ?_
    · refine tracks.apart.imp ?_
      exact fun apart _ => apart
    · refine tracks.apart.imp ?_
      exact fun apart _ => apart.symm
  exact apart first second different

/-- A content that takes the place of the cursor is a new piece. -/
theorem add (tracks : Tracks session addresses pieces todo rom) (content : Content) {slot : Slot}
    {region : Buffer} (opened : rom.openSlot? = some (slot, region))
    (addressed : (∃ bytes, content = .raw bytes) ∨ region.cursor < addressSpace)
    (replaced : rom.Replaces rom' slot.bank slot.region
      { region with data := region.data ++ content.initial }) :
    Tracks session addresses (pieces ++ [⟨slot, content⟩])
      (todo ++ (Piece.deferred? ⟨slot, content⟩ (UInt16.ofNat region.cursor)).toList) rom' := by
  -- The piece lies behind all that was reserved, and waits for itself unless it is raw.
  obtain ⟨found, offset⟩ := Rom.region?_openSlot tracks.keyed opened
  have extends_ : rom.Extends rom' := replaced.extends found
  refine ⟨replaced.keyed, ?_, ?_, ?_, ?_⟩
  · -- The pieces from before stay where they are, and the new one is behind them.
    intro piece met
    rcases List.mem_append.1 met with old | new
    · exact ((tracks.stored piece old).extends (.refl _) extends_).more
    · rw [List.mem_singleton] at new
      subst new
      exact Piece.stored_behind todo offset addressed replaced.here
  · -- The new piece starts where the region ended, behind all other pieces.
    rw [List.pairwise_append]
    refine ⟨tracks.apart, List.pairwise_singleton .., fun piece met new isNew => ?_⟩
    rw [List.mem_singleton] at isNew
    subst isNew
    exact (tracks.stored piece met).apart_behind found offset
  · -- A byte that is new is one of the new piece.
    intro bank index place after byte found' written
    by_cases here : bank = slot.bank ∧ index = slot.region
    · obtain ⟨rfl, rfl⟩ := here
      cases replaced.here.symm.trans found'
      rw [List.getElem?_append] at written
      split at written
      · obtain ⟨piece, met, covers⟩ := tracks.covered found written
        exact ⟨piece, List.mem_append_left _ met, covers⟩
      · have inside := (List.getElem?_eq_some_iff.1 written).1
        rw [Content.length_initial] at inside
        simp only [Buffer.length] at offset
        refine ⟨⟨slot, content⟩, by simp, rfl, rfl, ?_, ?_⟩ <;> simp only [Piece.size] <;> omega
    · -- A byte in another region was there before.
      rw [replaced.other bank index here] at found'
      obtain ⟨piece, met, covers⟩ := tracks.covered found' written
      exact ⟨piece, List.mem_append_left _ met, covers⟩
  · -- What waits is what waited before, or the new piece.
    intro item waits
    rcases List.mem_append.1 waits with old | new
    · exact ((tracks.waiting item old).extends extends_).more
    · rw [Option.mem_toList, Buffer.cursor, ← offset] at new
      refine .inr ⟨⟨slot, content⟩, by simp, _, replaced.here, ?_⟩
      rw [Piece.address]
      exact new

/-- A vector may wait as well. -/
theorem addVector (tracks : Tracks session addresses pieces todo rom) (kind : VectorKind)
    (name : String) (pos : Pos) :
    Tracks session addresses pieces (todo ++ [.vector kind name pos]) rom := by
  -- The pieces keep their items, and the new item is a vector.
  refine ⟨tracks.keyed, fun piece met => (tracks.stored piece met).more, tracks.apart,
    tracks.covered, fun item waits => ?_⟩
  rcases List.mem_append.1 waits with old | new
  · exact tracks.waiting item old
  · exact .inl ⟨kind, name, pos, List.mem_singleton.1 new⟩

/-- A vector that waits is no piece, so none is lost with it. -/
theorem dropVector {early late : List Deferred} {kind : VectorKind} {name : String} {pos : Pos}
    (tracks : Tracks session addresses pieces (early ++ .vector kind name pos :: late) rom) :
    Tracks session addresses pieces (early ++ late) rom := by
  -- Every piece waits for something else, and so does every other item.
  refine ⟨tracks.keyed, fun piece met => (tracks.stored piece met).drop ?_, tracks.apart,
    tracks.covered, fun item waits => ?_⟩
  · -- What waits for a piece is an instruction or data.
    intro address deferred
    cases content : piece.content <;> simp [Piece.deferred?, content] at deferred
  · refine tracks.waiting item ?_
    simp only [List.mem_append, List.mem_cons] at waits ⊢
    exact waits.imp_right .inr

/-- What waits for a piece is written once, and then it waits no more. -/
theorem write {early late : List Deferred} {item : Deferred}
    (tracks : Tracks session addresses pieces (early ++ item :: late) rom) {piece : Piece}
    {region : Buffer} {bytes : List UInt8} (met : piece ∈ pieces)
    (found : rom.region? piece.slot.bank piece.slot.region = some region)
    (waits : piece.deferred? (piece.address region) = some item)
    (assembles : piece.content.Assembles session addresses (piece.address region) bytes)
    (ran : Rom.writeAt piece.slot bytes rom = .ok () rom') :
    Tracks session addresses pieces (early ++ late) rom' := by
  -- The region is replaced by one with the bytes in it, of the same length.
  have replaced := Rom.writeAt_run tracks.keyed found ran
  -- The bytes fit, for the piece lies in its region and comes to as many bytes as it takes.
  have size : bytes.length = piece.size := assembles.length
  have fits : piece.slot.offset + bytes.length ≤ region.length := by
    obtain ⟨same, again, lies, -⟩ := tracks.stored piece met
    cases found.symm.trans again
    have fits := lies.fits
    omega
  refine ⟨replaced.keyed, ?_, tracks.apart, ?_, ?_⟩
  · intro other otherMet
    by_cases same : other = piece
    · -- The piece itself now stands in its place.
      subst same
      obtain ⟨old, before, lies, -⟩ := tracks.stored other otherMet
      cases found.symm.trans before
      refine ⟨_, replaced.here, lies.write _ _, .inl ⟨bytes, ?_, Buffer.holds_writeAt fits⟩⟩
      rw [Piece.address_writeAt]
      exact assembles
    · -- Another piece shares no byte with it, and waits for something else.
      have away := tracks.apart_of_ne otherMet met same
      refine ((tracks.stored other otherMet).write away found size fits replaced).drop ?_
      exact fun address deferred => same (Piece.eq_of_deferred? deferred waits)
  · -- A byte that is new is one of the piece.
    intro bank index place after byte found' written
    by_cases here : bank = piece.slot.bank ∧ index = piece.slot.region
    · obtain ⟨rfl, rfl⟩ := here
      cases replaced.here.symm.trans found'
      rw [Buffer.getElem?_writeAt fits] at written
      split at written
      · rename_i inside
        exact ⟨piece, met, rfl, rfl, inside.1, by omega⟩
      · exact tracks.covered found written
    · -- A byte in another region was there before.
      rw [replaced.other bank index here] at found'
      exact tracks.covered found' written
  · -- Writing moves no region.
    intro other inside
    have before : other ∈ early ++ item :: late := by
      simp only [List.mem_append, List.mem_cons] at inside ⊢
      exact inside.imp_right .inr
    exact (tracks.waiting other before).keeps fun there =>
      replaced.starts found (Buffer.org_writeAt ..) there

end Tracks

end CrossAsm
