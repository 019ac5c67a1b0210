import CrossAsm.Proofs.Layout.Steps
import CrossAsm.Proofs.Layout.Tracking

/-! The walk of layout, statement by statement: the pieces it meets are tracked, and a name that is
bound keeps its address. -/

namespace CrossAsm

/-- What fills the bytes that a statement takes. -/
def Stmt.content? : Stmt → Option Content
  | .item (.instruction line) => line.mode.map (.instruction line)
  | .item (.var var) => if var.init.isSome then var.size.map (.data var) else none
  | .item (.directive (.incbin _ bytes) _) => some (.raw bytes)
  | _ => none

namespace Layout

variable {session : Session} {state state' : Layout} {pieces : List Piece}

/-- The statements of a walk, each with the state it finds. -/
def visits (session : Session) : List Stmt → Layout → List (Layout × Stmt)
  | [], _ => []
  | first :: others, state =>
    (state, first) :: match stmt session first state with
      | .ok () next => visits session others next
      | .error .. => []

/-- The piece that a statement puts at the cursor. -/
def pieceAt (state : Layout) (s : Stmt) : Option Piece :=
  s.content?.bind fun content => state.rom.openSlot?.map fun (slot, _) => ⟨slot, content⟩

/-- The pieces of a list of statements, in the order the walk meets them. -/
def piecesFrom (session : Session) (stmts : List Stmt) (state : Layout) : List Piece :=
  (visits session stmts state).filterMap fun (before, s) => before.pieceAt s

/-! ### One statement -/

/-- Trying an item that waits for a piece writes the piece, or lets it wait on. -/
theorem retry_tracks {item : Deferred} {late : List Deferred}
    (ran : retry session item state = .ok () state')
    (tracks : Tracks session state.addresses pieces (state.pending ++ item :: late) state.rom) :
    Tracks session state'.addresses pieces (state'.pending ++ late) state'.rom := by
  -- What is tried stands between what waits and what is tried later.
  cases retry_tried ran with
  | waits => simpa using tracks
  | written done wrote =>
    rcases tracks.waiting item (by simp) with
      ⟨kind, name, pos, rfl⟩ | ⟨piece, met, region, found, waits⟩
    · -- A vector has no bytes.
      simp [Deferred.attempt] at done
    · obtain ⟨bytes, same, assembles⟩ := Piece.attempt_eq_some waits done
      cases same
      exact tracks.write met found waits assembles wrote
  | recorded done =>
    rcases tracks.waiting item (by simp) with
      ⟨kind, name, pos, rfl⟩ | ⟨piece, met, region, found, waits⟩
    · exact tracks.dropVector
    · -- A piece is no vector.
      obtain ⟨bytes, same, -⟩ := Piece.attempt_eq_some waits done
      cases same

/-- Reserved space, and the item that waits for it, are a new piece. -/
theorem reserve_tracks (content : Content) {pos : Pos} {slot : Slot} {address : UInt16} {rom : Rom}
    (tracks : Tracks session state.addresses pieces state.pending state.rom)
    (empty : content.initial = List.replicate content.size none)
    (room : addressSpace + content.size ≤ Word.count)
    (reserved : Rom.reserve content.size pos state.rom = .ok (slot, address) rom) :
    Tracks session state.addresses
      (pieces ++ (state.rom.openSlot?.map fun (slot, _) => Piece.mk slot content).toList)
      (state.pending ++ (Piece.deferred? ⟨slot, content⟩ address).toList) rom := by
  -- The region that is open is the one that the space is reserved in.
  obtain ⟨region, opened, addressed, rfl, replaced⟩ := Rom.reserve_run tracks.keyed room reserved
  rw [Buffer.extended, ← empty] at replaced
  rw [opened]
  exact tracks.add content opened (.inr addressed) replaced

/-- A directive that puts no bytes into a bank only lets regions grow. -/
theorem request_keeps {d : Directive} {pos : Pos} {request : Rom.Request} {rom rom' : Rom}
    (keyed : rom.Keyed) (requested : d.request? pos = some request)
    (ran : request.step rom = .ok () rom') : rom.Keeps rom' := by
  -- Each directive has its own request, of which the run is known.
  cases d with
  | ramOrg | ramEnd | incbin | vector => cases requested
  | romOrg => cases requested; exact Rom.openRegion_run keyed ran
  | romEnd => cases requested; exact (Rom.closeRegion_run keyed ran).1
  | romBank => cases requested; exact Rom.select_run keyed ran
  | romBanksize =>
    cases requested
    simp only [Rom.Request.step, Rom.setBanksize, modify_eq_ok] at ran
    exact .ofBanks keyed (ran ▸ rfl)
  | setPad => cases requested; exact Rom.setPadding_run keyed ran
  | align => cases requested; exact Rom.align_run keyed ran

/-- One statement of the walk meets at most one piece. -/
theorem Step.tracks {s : Stmt} (step : Step session state s state')
    (tracks : Tracks session state.addresses pieces state.pending state.rom) :
    Tracks session state'.addresses (pieces ++ (state.pieceAt s).toList) state'.pending
      state'.rom := by
  -- A statement without contents is no piece, so that the list of pieces stays.
  have passed : ∀ {addresses rom}, s.content? = none → state.addresses.ExtendedBy addresses →
      state.rom.Keeps rom →
      Tracks session addresses (pieces ++ (state.pieceAt s).toList) state.pending rom := by
    intro addresses rom nothing extended keeps
    rw [pieceAt, nothing, Option.bind_none, Option.toList_none, List.append_nil]
    exact tracks.keeps extended keeps
  cases step with
  | begin | finish | openWindow | closeWindow => exact passed rfl (.refl _) (.refl tracks.keyed)
  | label asked fresh => exact passed rfl fresh (Rom.address_run tracks.keyed asked).1
  | @instruction line mode _ _ _ _ chosen room reserved tried =>
    have tracked := reserve_tracks (.instruction line mode) tracks rfl room reserved
    simpa [pieceAt, Stmt.content?, chosen] using retry_tracks tried tracked
  | @filled var size _ _ _ _ filled sized room reserved fresh tried =>
    -- Its own address is bound before its contents are tried.
    have tracked := reserve_tracks (.data var size) tracks rfl room reserved
    have named := tracked.keeps fresh (.refl tracked.keyed)
    simpa [pieceAt, Stmt.content?, filled, sized] using retry_tracks tried named
  | fixed plain _ _ _ fresh => exact passed (if_neg plain) fresh (.refl tracks.keyed)
  | free plain _ _ _ _ fresh => exact passed (if_neg plain) fresh (.refl tracks.keyed)
  | @request d pos _ _ requested ran =>
    -- Only bytes of a file are a piece, and those are not asked for in this way.
    have nothing : Stmt.content? (.item (.directive d pos)) = none := by
      cases d <;> first | rfl | cases requested
    exact passed nothing (.refl _) (request_keeps tracks.keyed requested ran)
  | @incbin _ bytes _ _ _ wrote =>
    obtain ⟨slot, region, opened, replaced⟩ := Rom.write_run tracks.keyed wrote
    rw [(Rom.region?_openSlot tracks.keyed opened).2, Buffer.writeAt_extended] at replaced
    have added := tracks.add (.raw bytes) opened (.inl ⟨bytes, rfl⟩) replaced
    simpa [pieceAt, Stmt.content?, opened, Piece.deferred?] using added
  | @vector kind name pos _ tried =>
    -- A vector waits, but not for bytes.
    simpa [pieceAt, Stmt.content?] using retry_tracks tried (tracks.addVector kind name pos)

/-- The piece of the first statement stands before those of the others. -/
theorem piecesFrom_cons {first : Stmt} {others : List Stmt}
    (stepped : stmt session first state = .ok () state') :
    piecesFrom session (first :: others) state =
      (state.pieceAt first).toList ++ piecesFrom session others state' := by
  -- The walk visits the first statement and goes on from the state behind it.
  simp only [piecesFrom, visits, stepped, List.filterMap_cons]
  cases state.pieceAt first <;> rfl

/-- The walk tracks all pieces that it meets. -/
theorem walk_tracks {stmts : List Stmt}
    (tracks : Tracks session state.addresses pieces state.pending state.rom)
    (ran : walk session stmts state = .ok () state') :
    Tracks session state'.addresses (pieces ++ piecesFrom session stmts state) state'.pending
      state'.rom := by
  -- By induction on the statements, with one step for each.
  induction stmts generalizing state pieces with
  | nil =>
    rw [walk, pure_eq_ok] at ran
    simpa [piecesFrom, visits, ← ran.2] using tracks
  | cons first others ih =>
    simp only [walk, bind_eq_ok] at ran
    obtain ⟨_, next, stepped, ran⟩ := ran
    have tracked := ih ((stmt_step stepped).tracks tracks) ran
    rwa [piecesFrom_cons stepped, ← List.append_assoc]

/-! ### Names -/

/-- Labels and variables on record are bound to their addresses. -/
structure Known (state : Layout) : Prop where
  /-- A label has its address among all the others. -/
  labels : state.labels.ExtendedBy state.addresses
  /-- A variable is bound where it is. -/
  recorded : ∀ placement ∈ state.placed ++ state.data,
    Entries.get? placement.name state.addresses = some placement.address

/-- Names keep their addresses, and variables their records. -/
structure Binds (state state' : Layout) : Prop where
  /-- What is on record stays bound. -/
  known : state'.Known
  /-- Every name keeps its address. -/
  addresses : state.addresses.ExtendedBy state'.addresses
  /-- Every label keeps its address. -/
  labels : state.labels.ExtendedBy state'.labels
  /-- Every variable in RAM stays on record. -/
  placed : state.placed ⊆ state'.placed
  /-- Every variable in ROM stays on record. -/
  data : state.data ⊆ state'.data

/-- Names that keep their addresses twice keep them. -/
theorem Binds.trans {first second third : Layout} (early : first.Binds second)
    (late : second.Binds third) : first.Binds third :=
  ⟨late.known, early.addresses.trans late.addresses, early.labels.trans late.labels,
    List.Subset.trans early.placed late.placed, List.Subset.trans early.data late.data⟩

/-- A step that leaves names and records alone. -/
theorem Rests.binds (rests : state.Rests state') (known : state.Known) : state.Binds state' := by
  -- Nothing that the two speak of has changed.
  obtain ⟨addresses, labels, placed, data⟩ := rests
  refine ⟨⟨?_, ?_⟩, ?_, ?_, placed ▸ List.Subset.refl _, data ▸ List.Subset.refl _⟩
  · rw [addresses, labels]
    exact known.labels
  · rw [addresses, placed, data]
    exact known.recorded
  · rw [addresses]
    exact .refl _
  · rw [labels]
    exact .refl _

/-- A label has the address of the cursor where it stands, among all names and among the labels. -/
theorem Step.label_address {l : Label} (step : Step session state (.item (.label l)) state')
    (keyed : state.rom.Keyed) :
    ∃ slot region, state.rom.openSlot? = some (slot, region) ∧ region.cursor < addressSpace ∧
      Entries.get? l.name state'.labels = some (UInt16.ofNat region.cursor) := by
  -- The address is asked for before the label is bound.
  cases step with
  | label asked _ =>
    obtain ⟨-, slot, region, opened, fits, rfl⟩ := Rom.address_run keyed asked
    exact ⟨slot, region, opened, fits, by rw [Entries.get?_insert, if_pos rfl]⟩

/-- A binding of a name, with a record of the variable or without one, keeps all others. -/
theorem Known.binds {name : String} {address : UInt16} {more : Layout} (known : state.Known)
    (size : Nat) (fresh : state.addresses.ExtendedBy (bound name address state))
    (addresses : more.addresses = bound name address state) (labels : more.labels = state.labels)
    (placed : more.placed = state.placed ∨
      more.placed = state.placed ++ [⟨name, address, size⟩])
    (data : more.data = state.data ∨ more.data = state.data ++ [⟨name, address, size⟩]) :
    state.Binds more := by
  -- Either list of records is the old one, with the new record at its end if at all.
  have grows : ∀ {old new : List Placement},
      new = old ∨ new = old ++ [⟨name, address, size⟩] → old ⊆ new ∧
        ∀ record ∈ new, record = ⟨name, address, size⟩ ∨ record ∈ old := by
    rintro old new (rfl | rfl)
    · exact ⟨List.Subset.refl _, fun record inside => .inr inside⟩
    · refine ⟨List.subset_append_left _ _, fun record inside => ?_⟩
      rw [List.mem_append, List.mem_singleton] at inside
      exact inside.symm
  refine ⟨⟨?_, fun record inside => ?_⟩, addresses ▸ fresh, labels ▸ .refl _, (grows placed).1,
    (grows data).1⟩
  · rw [labels, addresses]
    exact known.labels.trans fresh
  · rw [addresses]
    have old : record = ⟨name, address, size⟩ ∨ record ∈ state.placed ++ state.data := by
      rw [List.mem_append] at inside ⊢
      rcases inside with inside | inside
      · exact ((grows placed).2 record inside).imp_right .inl
      · exact ((grows data).2 record inside).imp_right .inr
    rcases old with rfl | old
    · exact get?_bound name address state
    · exact fresh (known.recorded record old)

/-- Each statement of the walk keeps the addresses of names. -/
theorem Step.binds {s : Stmt} (step : Step session state s state') (known : state.Known) :
    state.Binds state' := by
  -- One case for each kind of step; only names that are bound anew are looked at.
  have still : state.Binds state := (rests_rom state state.rom).binds known
  cases step with
  | begin | finish | openWindow | closeWindow | request | incbin =>
    -- Nothing is bound.
    exact ⟨⟨known.labels, known.recorded⟩, still.addresses, still.labels, still.placed, still.data⟩
  | @label l address rom asked fresh =>
    -- A label of the same name was bound, so it had the same address.
    have named := get?_bound l.name address state
    refine ⟨⟨fun name value found => ?_, fun record inside => fresh (known.recorded record inside)⟩,
      fresh, .insert fun previous found => ?_, still.placed, still.data⟩
    · -- A name is the new label, or was bound before.
      rw [Entries.get?_insert] at found
      split at found
      · rename_i same
        cases found
        exact same ▸ named
      · exact fresh (known.labels found)
    · have before := fresh (known.labels found)
      rw [named, Option.some.injEq] at before
      exact before.symm
  | instruction _ _ _ tried =>
    -- The bytes of an instruction change no address.
    exact ((rests_rom state _).trans (retry_rests tried)).binds known
  | @filled _ size _ _ _ _ _ _ _ _ fresh tried =>
    -- A variable binds its name, and is recorded with its size.
    have rests := retry_rests tried
    exact known.binds size fresh rests.addresses rests.labels (.inl rests.placed) (.inr rests.data)
  | @fixed _ _ size _ _ _ _ _ fresh => exact known.binds size fresh rfl rfl (.inr rfl) (.inl rfl)
  | @free _ size _ _ _ _ _ _ _ _ _ fresh =>
    exact known.binds size fresh rfl rfl (.inr rfl) (.inl rfl)
  | vector tried => exact (retry_rests tried).binds known

/-- Where a variable is on record: with initial contents in ROM, and else in RAM, at its own address
if it has one. -/
structure OnRecord (state : Layout) (var : Variable) (record : Placement) : Prop where
  /-- The record is the variable's. -/
  name : record.name = var.key
  /-- A variable with initial contents is in ROM, any other in RAM. -/
  place : record ∈ if var.init.isSome then state.data else state.placed
  /-- A variable in RAM is at its own address if it has one. -/
  fixed : var.init = none → ∀ e, var.address = some e →
    state.addresses.eval e var.pos = .ok (some (Int64.ofNat record.address.toNat))

/-- What is on record stays on record. -/
theorem OnRecord.binds {var : Variable} {record : Placement} (onRecord : state.OnRecord var record)
    (binds : state.Binds state') : state'.OnRecord var record := by
  -- Records are only added, and known values stay.
  refine ⟨onRecord.name, ?_, fun plain e given => ?_⟩
  · have there := onRecord.place
    split at there <;> rename_i filled
    · rw [if_pos filled]
      exact binds.data there
    · rw [if_neg filled]
      exact binds.placed there
  · exact Addresses.eval_extended binds.addresses (onRecord.fixed plain e given)

/-- A variable is put on record. -/
theorem Step.onRecord {var : Variable} (step : Step session state (.item (.var var)) state') :
    ∃ record, state'.OnRecord var record := by
  -- Initial contents decide alone whether the record is one of ROM or of RAM.
  cases step with
  | @filled _ size _ address _ _ filled _ _ _ _ tried =>
    refine ⟨⟨var.key, address, size⟩, rfl, ?_, fun plain => ?_⟩
    · rw [if_pos filled, (retry_rests tried).data]
      simp
    · simp [plain] at filled
  | @fixed _ e size address plain _ given known fresh =>
    refine ⟨⟨var.key, address, size⟩, rfl, by simp [plain], fun _ other same => ?_⟩
    cases given.symm.trans same
    exact Addresses.eval_extended fresh known
  | @free _ size _ _ place _ plain _ given =>
    refine ⟨⟨var.key, UInt16.ofNat place, size⟩, rfl, by simp [plain], fun _ e same => ?_⟩
    cases given.symm.trans same

end Layout

end CrossAsm
