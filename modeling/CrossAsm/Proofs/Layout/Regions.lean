import CrossAsm.Memory.Rom
import CrossAsm.Proofs.Steps

/-! Regions as layout goes on: what is written in a region stays there, and new space is empty. One
lemma says what each step on the banks does to them. -/

namespace CrossAsm

namespace Entries

variable {κ α β : Type} [DecidableEq κ]

/-- The keys of entries, which an insertion adds to at the end if at all. -/
theorem keys_insert (key : κ) (value : α) (entries : List (κ × α)) :
    (insert key value entries).map Prod.fst =
      if (get? key entries).isSome then entries.map Prod.fst
      else entries.map Prod.fst ++ [key] := by
  -- Insertion replaces the first entry of the key, and goes to the end when there is none.
  induction entries with
  | nil => rfl
  | cons head rest ih =>
    obtain ⟨other, old⟩ := head
    by_cases here : other = key
    · simp [insert, get?, here]
    · simp only [insert, get?, here, if_false, List.map_cons, ih]
      split <;> rfl

/-- With each key once, an entry is found under its key. -/
theorem get?_of_mem {key : κ} {value : α} {entries : List (κ × α)}
    (distinct : (entries.map Prod.fst).Nodup) (inside : (key, value) ∈ entries) :
    get? key entries = some value := by
  -- By induction on the entries, the first of which may hide no other of its key.
  induction entries with
  | nil => cases inside
  | cons head rest ih =>
    obtain ⟨other, old⟩ := head
    rw [List.map_cons, List.nodup_cons] at distinct
    rcases List.mem_cons.1 inside with same | later
    · cases same
      simp [get?]
    · -- A later entry of the key rules out that the head has it.
      have other_ne : other ≠ key := by
        rintro rfl
        exact distinct.1 (List.mem_map.2 ⟨_, later, rfl⟩)
      simp only [get?, other_ne, if_false]
      exact ih distinct.2 later

/-- A view of the entries does not see a value replaced by one that looks the same. -/
theorem map_insert_of_get? {key : κ} {old new : α} {entries : List (κ × α)} (f : κ × α → β)
    (found : get? key entries = some old) (same : f (key, new) = f (key, old)) :
    (insert key new entries).map f = entries.map f := by
  -- The entry is replaced where it stands, so the order does not change either.
  induction entries with
  | nil => cases found
  | cons head rest ih =>
    obtain ⟨other, value⟩ := head
    by_cases here : other = key
    · subst here
      simp only [get?, if_true, Option.some.injEq] at found
      simp [insert, same, found]
    · simp only [get?, here, if_false] at found
      simp [insert, here, ih found]

end Entries

/-- One region grown from another: its start is the same, and what is new is empty. -/
structure Buffer.GrowsTo (old new : Buffer) : Prop where
  /-- It starts at the same address. -/
  org : new.org = old.org
  /-- Only empty space is added. -/
  data : ∃ gap, new.data = old.data ++ List.replicate gap none

/-- A region in which nothing is written. -/
def Buffer.Blank (region : Buffer) : Prop :=
  ∃ gap, region.data = List.replicate gap none

/-- What may come of the region in a place: it grows, or an empty one is opened there. -/
def Grown : Option Buffer → Option Buffer → Prop
  | none, none => True
  | none, some new => new.Blank
  | some old, some new => old.GrowsTo new
  | some _, none => False

/-- A region may stay as it is. -/
theorem Grown.refl (region : Option Buffer) : Grown region region := by
  -- An open region grows by nothing.
  cases region with
  | none => trivial
  | some region => exact ⟨rfl, 0, by simp⟩

/-- Growing twice is growing. -/
theorem Grown.trans {first second third : Option Buffer} (early : Grown first second)
    (late : Grown second third) : Grown first third := by
  -- A region that is there stays, so only three ways are left.
  rcases first with _ | first
  · rcases second with _ | second
    · rcases third with _ | third
      · trivial
      · exact late
    · rcases third with _ | third
      · cases late
      · obtain ⟨gap, blank⟩ := early
        obtain ⟨-, more, grown⟩ := late
        exact ⟨gap + more, by rw [grown, blank, List.replicate_append_replicate]⟩
  · rcases second with _ | second
    · cases early
    · rcases third with _ | third
      · cases late
      · obtain ⟨orgs, gap, grown⟩ := early
        obtain ⟨org, more, grew⟩ := late
        refine ⟨org.trans orgs, gap + more, ?_⟩
        rw [grew, grown, List.append_assoc, List.replicate_append_replicate]

namespace Buffer

/-- A region with empty space behind it. -/
def extended (region : Buffer) (size : Nat) : Buffer :=
  { region with data := region.data ++ List.replicate size none }

/-- Empty space behind a region makes it grow. -/
theorem growsTo_extended (region : Buffer) (size : Nat) : region.GrowsTo (region.extended size) :=
  ⟨rfl, size, rfl⟩

/-- A region made as long as an offset: it is cut off there, or filled up to it with empty space. -/
def upTo (region : Buffer) (stop : Nat) : Buffer :=
  { region with data := region.data.take stop ++ List.replicate (stop - region.length) none }

/-- It is as long as it was made. -/
@[simp]
theorem length_upTo (region : Buffer) (stop : Nat) : (region.upTo stop).length = stop := by
  -- What is taken and what is filled up make the length.
  simp only [upTo, Buffer.length, List.length_append, List.length_take, List.length_replicate]
  omega

/-- An offset behind the cursor cuts nothing off. -/
theorem upTo_length_add (region : Buffer) (size : Nat) :
    region.upTo (region.length + size) = region.extended size := by
  -- All bytes are kept, and the new ones have nothing in them.
  simp [upTo, extended, Buffer.length, List.take_of_length_le]

variable {region region' : Buffer} {size stop last offset : Nat} {pos : Pos}

/-- A region is made as long as an offset if its size and the address space allow for it. -/
theorem reserveUpTo_iff : region.reserveUpTo stop last pos = .ok (offset, region') ↔
    ((∀ maxsize ∈ region.maxsize, stop ≤ maxsize) ∧ last ≤ addressSpace ∧ stop ≤ addressSpace) ∧
      offset = region.length ∧ region' = region.upTo stop := by
  -- The size of the region is checked first, then where the last byte lies, then the end.
  unfold reserveUpTo
  cases refused : region.maxsize.filter (· < stop) with
  | some maxsize =>
    -- The size that is found is one that the offset is behind.
    obtain ⟨limit, less⟩ := Option.filter_eq_some_iff.1 refused
    simp only [reduceCtorEq, false_iff, not_and]
    intro within
    have := within.1 maxsize limit
    simp only [decide_eq_true_eq] at less
    omega
  | none =>
    have within : ∀ maxsize ∈ region.maxsize, stop ≤ maxsize := by
      simpa using Option.filter_eq_none_iff.1 refused
    by_cases outside : addressSpace < last
    · simp only [outside, if_true, reduceCtorEq, false_iff]
      omega
    by_cases behind : addressSpace < stop
    · simp only [outside, behind, if_true, if_false, reduceCtorEq, false_iff]
      omega
    · simp only [outside, behind, if_false, Except.ok.injEq, Prod.mk.injEq, upTo]
      exact ⟨fun ⟨same, made⟩ => ⟨⟨within, by omega, by omega⟩, same.symm, made.symm⟩,
        fun ⟨_, same, made⟩ => ⟨same.symm, made.symm⟩⟩

/-- Where there are as many words behind the cursor, space is claimed. -/
theorem reserve_eq_claim (room : region.cursor + size < Word.count) :
    region.reserve size pos = region.claim size pos := by
  -- Neither sum wraps around, so that both are the same request.
  unfold cursor at room
  rw [reserve, claim, Word.add_of_lt (by omega), Word.add_of_lt (by omega)]

/-- Space that is claimed stands behind all that was before. -/
theorem claim_eq_ok (ran : region.claim size pos = .ok (offset, region')) :
    offset = region.length ∧ region' = region.extended size := by
  -- The space is made behind the cursor, where nothing is cut off.
  obtain ⟨-, same, made⟩ := reserveUpTo_iff.1 ran
  exact ⟨same, made.trans (upTo_length_add region size)⟩

/-- A region with an address for its next byte. -/
theorem address_eq_ok {address : UInt16}
    (ran : region.address pos = .ok address) :
    region.cursor < addressSpace ∧ address = UInt16.ofNat region.cursor := by
  -- The cursor has an address as long as it has not left the address space.
  unfold Buffer.address at ran
  split at ran
  · cases ran
    exact ⟨‹_›, rfl⟩
  · cases ran

/-- A region that is moved on to a multiple grows. -/
theorem align_eq_ok {multiple : Nat}
    (ran : region.align multiple pos = .ok region') : region.GrowsTo region' := by
  -- On a multiple already nothing is done; else the rest up to it is reserved.
  unfold align at ran
  split at ran
  · cases ran
    exact ⟨rfl, 0, by simp⟩
  · simp only [except_bind_eq_ok, except_pure_eq_ok] at ran
    obtain ⟨⟨offset, grown⟩, reserved, rfl⟩ := ran
    obtain ⟨-, rfl⟩ := claim_eq_ok reserved
    exact growsTo_extended region _

end Buffer

namespace Bank

/-- The region of a bank in a place: a closed one, or behind these the open one. -/
theorem regions_getElem? (bank : Bank) (index : Nat) :
    bank.regions[index]? =
      if index < bank.closed.length then bank.closed[index]?
      else if index = bank.closed.length then bank.current else none := by
  -- The open region, if any, is listed behind the closed ones.
  rw [regions, List.getElem?_append]
  split
  · rfl
  · -- Behind the closed regions stands at most one.
    have offset : index - bank.closed.length = 0 ↔ index = bank.closed.length := by omega
    cases bank.current with
    | none => simp
    | some region =>
      rw [Option.toList_some, List.getElem?_singleton]
      simp only [offset]

/-- What may come of a bank: each of its regions grows, and empty ones are opened behind them. -/
structure GrowsTo (old new : Bank) : Prop where
  /-- It has the same number. -/
  number : new.number = old.number
  /-- Each region grows in its place. -/
  regions : ∀ index : Nat, Grown old.regions[index]? new.regions[index]?

/-- A bank whose regions stay as they are. -/
theorem GrowsTo.ofEq {old new : Bank} (number : new.number = old.number)
    (regions : new.regions = old.regions) : old.GrowsTo new :=
  ⟨number, fun _ => regions ▸ Grown.refl _⟩

/-- A bank whose open region is replaced, or opened, and all else stays. -/
theorem GrowsTo.ofCurrent {old new : Bank} (number : new.number = old.number)
    (closed : new.closed = old.closed) (grown : Grown old.current new.current) :
    old.GrowsTo new := by
  -- Closed regions come first, and the open one stands behind them.
  refine ⟨number, fun index => ?_⟩
  rw [regions_getElem?, regions_getElem?, closed]
  -- Closed regions are the same; the place of the open one is behind them.
  split
  · exact Grown.refl _
  · split
    · exact grown
    · exact Grown.refl _

end Bank

namespace Rom

/-- The region in a place: the number of a bank, and the place among its regions. -/
def region? (rom : Rom) (bank index : Nat) : Option Buffer :=
  (Entries.get? bank rom.banks).bind fun found => found.regions[index]?

/-- Banks stand under their own numbers, each once. -/
structure Keyed (rom : Rom) : Prop where
  /-- A bank has the number that it stands under. -/
  number : ∀ {key : Nat} {bank : Bank}, (key, bank) ∈ rom.banks → bank.number = key
  /-- No number is used twice. -/
  distinct : (rom.banks.map Prod.fst).Nodup

/-- A step that keeps the banks in order, in which regions only grow. -/
structure Keeps (rom rom' : Rom) : Prop where
  /-- The banks stand under their numbers. -/
  keyed : rom'.Keyed
  /-- Each region grows in its place. -/
  grows : ∀ bank index, Grown (rom.region? bank index) (rom'.region? bank index)

/-- Nothing at all keeps the banks. -/
theorem Keeps.refl {rom : Rom} (keyed : rom.Keyed) : rom.Keeps rom :=
  ⟨keyed, fun _ _ => Grown.refl _⟩

/-- One step after another keeps the banks. -/
theorem Keeps.trans {first second third : Rom} (early : first.Keeps second)
    (late : second.Keeps third) : first.Keeps third :=
  ⟨late.keyed, fun bank index => (early.grows bank index).trans (late.grows bank index)⟩

/-- A step that leaves the banks alone keeps them. -/
theorem Keeps.ofBanks {rom rom' : Rom} (keyed : rom.Keyed) (same : rom'.banks = rom.banks) :
    rom.Keeps rom' := by
  -- All three facts are read off the banks alone.
  refine ⟨⟨?_, ?_⟩, fun bank index => ?_⟩
  · rw [same]
    exact keyed.number
  · rw [same]
    exact keyed.distinct
  · unfold region?
    rw [same]
    exact Grown.refl _

variable {rom rom' : Rom}

/-- A bank that is put in its place stands under its number. -/
theorem Keyed.insert (keyed : rom.Keyed) {bank : Bank} {key : Nat} (number : bank.number = key) :
    Keyed { rom with banks := Entries.insert key bank rom.banks } := by
  -- The number is either one in use, which is replaced, or a new one at the end.
  constructor
  · intro other found inside
    rcases Entries.mem_insert inside with same | old
    · cases same
      exact number
    · exact keyed.number old
  · rw [Entries.keys_insert]
    split
    · exact keyed.distinct
    · -- A new number stands at the end, and no bank had it.
      rename_i absent
      rw [List.nodup_append]
      refine ⟨keyed.distinct, by simp, ?_⟩
      intro other within last isLast same
      obtain ⟨⟨number, found⟩, inside, rfl⟩ := List.mem_map.1 within
      rw [List.mem_singleton] at isLast
      rw [← isLast, ← same, Entries.get?_of_mem keyed.distinct inside] at absent
      simp at absent

/-- Putting a grown bank in the place of the old one. -/
theorem Keeps.ofBank (keyed : rom.Keyed) {key : Nat} {old new : Bank}
    (found : Entries.get? key rom.banks = some old) (grown : old.GrowsTo new) :
    rom.Keeps { rom with banks := Entries.insert key new rom.banks } := by
  -- Other banks are not touched, so it comes down to the regions of this one.
  have number : new.number = key :=
    grown.number.trans (keyed.number (Entries.mem_of_get? found))
  refine ⟨keyed.insert number, fun bank index => ?_⟩
  simp only [region?, Entries.get?_insert]
  by_cases here : key = bank
  · subst here
    simpa [found] using grown.regions index
  · simpa [here] using Grown.refl _

/-- Making a bank that there was not. -/
theorem Keeps.ofNewBank (keyed : rom.Keyed) {key : Nat} {bank : Bank}
    (absent : Entries.get? key rom.banks = none) (number : bank.number = key)
    (closed : bank.closed = []) (unopened : bank.current = none) :
    rom.Keeps { rom with banks := Entries.insert key bank rom.banks } := by
  -- Only the entry of the new bank differs.
  refine ⟨keyed.insert number, fun other index => ?_⟩
  simp only [region?, Entries.get?_insert]
  by_cases here : key = other
  · -- The new bank has no regions, and before there were none either.
    subst here
    simp [absent, Bank.regions, closed, unopened, Grown]
  · simpa [here] using Grown.refl _

/-! ### Steps on the banks -/

/-- A bank that there is already is the current bank as it stands. -/
theorem currentBank_of_get? {bank : Bank} (found : Entries.get? rom.current rom.banks = some bank) :
    currentBank rom = .ok bank rom := by
  -- A bank is made only where none is found.
  simp only [currentBank, bind_eq_ok, get_eq_ok]
  exact ⟨rom, rom, ⟨rfl, rfl⟩, by simp only [found, pure_eq_ok, and_self]⟩

/-- The current bank is found, or made without regions; an open region is that of a bank found. -/
theorem currentBank_run (keyed : rom.Keyed) {bank : Bank} (ran : currentBank rom = .ok bank rom') :
    rom.Keeps rom' ∧ Entries.get? rom.current rom'.banks = some bank ∧
      rom'.current = rom.current ∧ (bank.current.isSome = true → rom' = rom) := by
  -- A bank is made only under a number that has none.
  simp only [currentBank, bind_eq_ok, get_eq_ok] at ran
  obtain ⟨_, _, ⟨rfl, rfl⟩, ran⟩ := ran
  cases found : Entries.get? rom.current rom.banks with
  | some bank =>
    simp only [found, pure_eq_ok] at ran
    obtain ⟨rfl, rfl⟩ := ran
    exact ⟨.refl keyed, found, rfl, fun _ => rfl⟩
  | none =>
    simp only [found, setBank, bind_eq_ok, modify_eq_ok, pure_eq_ok] at ran
    obtain ⟨_, _, rfl, rfl, rfl⟩ := ran
    refine ⟨.ofNewBank keyed found rfl rfl rfl, ?_, rfl, ?_⟩
    · simp [Entries.get?_insert]
    · -- The new bank has no open region.
      intro isOpen
      cases isOpen

/-- Where the next byte goes, and the region that is open there. -/
def openSlot? (rom : Rom) : Option (Slot × Buffer) :=
  (Entries.get? rom.current rom.banks).bind fun bank =>
    bank.current.map fun region => (⟨bank.number, bank.closed.length, region.length⟩, region)

/-- The region in one place is replaced, and all others stay. -/
structure Replaces (rom rom' : Rom) (bank index : Nat) (region : Buffer) : Prop where
  /-- The banks stand under their numbers. -/
  keyed : rom'.Keyed
  /-- The new region is in its place. -/
  here : rom'.region? bank index = some region
  /-- Every other region stays. -/
  other : ∀ bank' index', ¬(bank' = bank ∧ index' = index) →
    rom'.region? bank' index' = rom.region? bank' index'

/-- A grown region in the place of the old one keeps the banks. -/
theorem Replaces.keeps {bank index : Nat} {old new : Buffer}
    (replaced : rom.Replaces rom' bank index new) (found : rom.region? bank index = some old)
    (grown : old.GrowsTo new) : rom.Keeps rom' := by
  refine ⟨replaced.keyed, fun bank' index' => ?_⟩
  -- Every place but one is as it was.
  by_cases here : bank' = bank ∧ index' = index
  · obtain ⟨rfl, rfl⟩ := here
    rw [replaced.here, found]
    exact grown
  · rw [replaced.other bank' index' here]
    exact Grown.refl _

/-- A bank in which one region is replaced. -/
theorem Replaces.ofBank (keyed : rom.Keyed) {old new : Bank} {key index : Nat} {region : Buffer}
    (found : Entries.get? key rom.banks = some old) (number : new.number = old.number)
    (here : new.regions[index]? = some region)
    (other : ∀ index' : Nat, index' ≠ index → new.regions[index']? = old.regions[index']?) :
    rom.Replaces { rom with banks := Entries.insert key new rom.banks } key index region := by
  -- The entry of the bank is looked up; all other entries are the same.
  have numbered : new.number = key :=
    number.trans (keyed.number (Entries.mem_of_get? found))
  refine ⟨keyed.insert numbered, ?_, fun bank' index' elsewhere => ?_⟩
  · simpa [region?, Entries.get?_insert] using here
  · simp only [region?, Entries.get?_insert]
    by_cases same : key = bank'
    · -- In the same bank it is another of the regions.
      subst same
      simpa [found] using other index' fun equal => elsewhere ⟨rfl, equal⟩
    · simp [same]

/-- The region that is open is in its place. -/
theorem region?_openSlot (keyed : rom.Keyed) {slot : Slot} {region : Buffer}
    (opened : rom.openSlot? = some (slot, region)) :
    rom.region? slot.bank slot.region = some region ∧ slot.offset = region.length := by
  -- The open region stands behind the closed ones, which is the place the slot names.
  obtain ⟨bank, found, opened⟩ := Option.bind_eq_some_iff.1 opened
  obtain ⟨region, current, same⟩ := Option.map_eq_some_iff.1 opened
  cases same
  have number : bank.number = rom.current := keyed.number (Entries.mem_of_get? found)
  simp [region?, number, found, Bank.regions_getElem?, current]

/-- Work on the open region replaces it in its place, where it stays open. -/
theorem onRegion_run {α : Type} {pos : Pos} {f : Buffer → Except Error (α × Buffer)} {a : α}
    (keyed : rom.Keyed) (ran : onRegion pos f rom = .ok a rom') :
    ∃ slot region region', rom.openSlot? = some (slot, region) ∧ f region = .ok (a, region') ∧
      rom.Replaces rom' slot.bank slot.region region' ∧
      rom'.openSlot? = some (⟨slot.bank, slot.region, region'.length⟩, region') := by
  -- Without an open region, or when the work fails, there is no result at all.
  simp only [onRegion, bind_eq_ok] at ran
  obtain ⟨bank, entered, current, ran⟩ := ran
  obtain ⟨-, found, -, same⟩ := currentBank_run keyed current
  cases opened : bank.current with
  | none => simp [opened] at ran
  | some region =>
    obtain rfl := same (by simp [opened])
    cases worked : f region with
    | error e => simp [opened, worked] at ran
    | ok result =>
      obtain ⟨b, region'⟩ := result
      have number := keyed.number (Entries.mem_of_get? found)
      simp only [opened, worked, setBank, bind_eq_ok, modify_eq_ok, pure_eq_ok] at ran
      obtain ⟨_, _, rfl, rfl, rfl⟩ := ran
      refine ⟨⟨bank.number, bank.closed.length, region.length⟩, region, region', ?_, worked, ?_, ?_⟩
      · simp [openSlot?, found, opened]
      · rw [number]
        refine .ofBank keyed found number.symm ?_ fun index other => ?_
        · simp [Bank.regions_getElem?]
        · simp [Bank.regions_getElem?, other]
      · simp [openSlot?, Entries.get?_insert, number]

/-- The address of the next byte is that of the cursor. -/
theorem address_run (keyed : rom.Keyed) {pos : Pos} {a : UInt16}
    (ran : address pos rom = .ok a rom') :
    rom.Keeps rom' ∧ ∃ slot region, rom.openSlot? = some (slot, region) ∧
      region.cursor < addressSpace ∧ a = UInt16.ofNat region.cursor := by
  -- Asking for the address puts the region back as it was.
  obtain ⟨slot, region, region', opened, asked, replaced, -⟩ := onRegion_run keyed ran
  simp only [except_bind_eq_ok, except_pure_eq_ok, Prod.mk.injEq] at asked
  obtain ⟨b, asked, rfl, rfl⟩ := asked
  refine ⟨?_, slot, region, opened, Buffer.address_eq_ok asked⟩
  exact replaced.keeps (region?_openSlot keyed opened).1 ⟨rfl, 0, by simp⟩

/-- Reserved bytes take the place of the cursor, in the region that is open, if there are as many
words behind the address space. -/
theorem reserve_run (keyed : rom.Keyed) {size : Nat} {pos : Pos} {slot : Slot} {a : UInt16}
    (room : addressSpace + size ≤ Word.count)
    (ran : reserve size pos rom = .ok (slot, a) rom') :
    ∃ region, rom.openSlot? = some (slot, region) ∧ region.cursor < addressSpace ∧
      a = UInt16.ofNat region.cursor ∧
      rom.Replaces rom' slot.bank slot.region (region.extended size) := by
  -- The slot is made from the bank as it is after the reservation.
  simp only [reserve, bind_eq_ok, pure_eq_ok, Prod.mk.injEq] at ran
  obtain ⟨⟨offset, b⟩, middle, worked, bank, _, current, ⟨rfl, rfl⟩, rfl⟩ := ran
  obtain ⟨slot, region, region', opened, asked, replaced, stays⟩ := onRegion_run keyed worked
  simp only [except_bind_eq_ok, except_pure_eq_ok, Prod.mk.injEq] at asked
  obtain ⟨c, asked, ⟨place, grown⟩, reserved, ⟨rfl, rfl⟩, rfl⟩ := asked
  obtain ⟨fits, rfl⟩ := Buffer.address_eq_ok asked
  rw [Buffer.reserve_eq_claim (by omega)] at reserved
  obtain ⟨rfl, rfl⟩ := Buffer.claim_eq_ok reserved
  -- The bank is still the current one, with the region open in the same place.
  obtain ⟨bank', entered, stays⟩ := Option.bind_eq_some_iff.1 stays
  obtain ⟨_, isOpen, stays⟩ := Option.map_eq_some_iff.1 stays
  simp only [Prod.mk.injEq, Slot.mk.injEq] at stays
  obtain ⟨⟨number, place, -⟩, rfl⟩ := stays
  cases current.symm.trans (currentBank_of_get? entered)
  refine ⟨region, ?_, fits, rfl, ?_⟩
  · rw [opened, number, place, ← (region?_openSlot keyed opened).2]
  · rw [number, place]
    exact replaced

/-- Bytes that are written at the cursor stand behind all that was before. -/
theorem write_run (keyed : rom.Keyed) {bytes : List UInt8} {pos : Pos} {offset : Nat}
    (ran : write bytes pos rom = .ok offset rom') :
    ∃ slot region, rom.openSlot? = some (slot, region) ∧
      rom.Replaces rom' slot.bank slot.region
        ((region.extended bytes.length).writeAt slot.offset bytes) := by
  -- Writing is reserving, and then filling what was reserved.
  obtain ⟨slot, region, region', opened, wrote, replaced, -⟩ := onRegion_run keyed ran
  simp only [Buffer.write, except_bind_eq_ok, except_pure_eq_ok, Prod.mk.injEq] at wrote
  obtain ⟨⟨place, grown⟩, reserved, rfl, rfl⟩ := wrote
  obtain ⟨rfl, rfl⟩ := Buffer.claim_eq_ok reserved
  refine ⟨slot, region, opened, ?_⟩
  rw [(region?_openSlot keyed opened).2]
  exact replaced

/-- Moving the cursor on leaves empty space. -/
theorem align_run (keyed : rom.Keyed) {multiple : Nat} {pos : Pos}
    (ran : align multiple pos rom = .ok () rom') : rom.Keeps rom' := by
  -- The open region is aligned, and takes the place of the one before.
  obtain ⟨slot, region, region', opened, aligned, replaced, -⟩ := onRegion_run keyed ran
  simp only [except_bind_eq_ok, except_pure_eq_ok, Prod.mk.injEq, true_and] at aligned
  obtain ⟨_, aligned, rfl⟩ := aligned
  exact replaced.keeps (region?_openSlot keyed opened).1 (Buffer.align_eq_ok aligned)

/-- A bank that is put in its place stands under its own number. -/
theorem setBank_run (keyed : rom.Keyed) {key : Nat} {old new : Bank}
    (found : Entries.get? key rom.banks = some old) (ran : setBank new rom = .ok () rom')
    (grown : old.GrowsTo new) : rom.Keeps rom' := by
  -- The number is that of the old bank, so the new one takes its place.
  simp only [setBank, modify_eq_ok] at ran
  subst ran
  have number : new.number = key := grown.number.trans (keyed.number (Entries.mem_of_get? found))
  rw [number]
  exact .ofBank keyed found grown

/-- Selecting a bank keeps all regions. -/
theorem select_run (keyed : rom.Keyed) {number : Nat} {maxsize : Option Nat}
    (ran : select number maxsize rom = .ok () rom') : rom.Keeps rom' := by
  -- Selecting changes the number of the current bank, then perhaps its size.
  simp only [select, bind_eq_ok, modify_eq_ok] at ran
  obtain ⟨_, _, rfl, bank, middle, current, ran⟩ := ran
  -- The bank may be new, and its size may be set.
  have selected : rom.Keeps { rom with current := number } := .ofBanks keyed rfl
  obtain ⟨entered, found, -⟩ := currentBank_run selected.keyed current
  split at ran
  · exact (selected.trans entered).trans
      (setBank_run entered.keyed found ran (.ofEq rfl rfl))
  · rw [pure_eq_ok] at ran
    obtain ⟨-, rfl⟩ := ran
    exact selected.trans entered

/-- A fill changes no byte that is written. -/
theorem setPadding_run (keyed : rom.Keyed) {padding : Padding}
    (ran : setPadding padding rom = .ok () rom') : rom.Keeps rom' := by
  -- The fill is kept, and the open region of the current bank gets it.
  simp only [setPadding, bind_eq_ok, modify_eq_ok, get_eq_ok] at ran
  obtain ⟨_, _, rfl, _, _, ⟨rfl, rfl⟩, ran⟩ := ran
  have set : rom.Keeps { rom with padding } := .ofBanks keyed rfl
  cases found : Entries.get? rom.current rom.banks with
  | none =>
    simp only [found, pure_eq_ok, true_and] at ran
    subst ran
    exact set
  | some bank =>
    simp only [found] at ran
    refine set.trans (setBank_run set.keyed found ran (.ofCurrent rfl rfl ?_))
    -- The open region has the same bytes under the new fill.
    cases bank.current with
    | none => trivial
    | some region => exact ⟨rfl, 0, by simp⟩

/-- A region that is opened is empty, and stands behind the others. -/
theorem openRegion_run (keyed : rom.Keyed) {org : Nat} {maxsize : Option Nat} {pos : Pos}
    (ran : openRegion org maxsize pos rom = .ok () rom') : rom.Keeps rom' := by
  -- The checks leave the banks alone, up to the current one, which may be made.
  simp only [openRegion, bind_eq_ok, get_eq_ok] at ran
  obtain ⟨bank, middle, current, _, _, ⟨rfl, rfl⟩, ran⟩ := ran
  obtain ⟨entered, found, -⟩ := currentBank_run keyed current
  split at ran
  · simp at ran
  · rename_i closed
    split at ran
    · simp at ran
    · cases overlaps : bank.overlapping org (saturatingAdd org (max (maxsize.getD 1) 1)) with
      | some other => simp [overlaps] at ran
      | none =>
        simp only [overlaps] at ran
        refine entered.trans (setBank_run entered.keyed found ran (.ofCurrent rfl rfl ?_))
        -- No region was open, so an empty one takes the place.
        rw [Bool.not_eq_true, Option.isSome_eq_false_iff, Option.isNone_iff_eq_none] at closed
        rw [closed]
        exact ⟨0, rfl⟩

/-- What is seen of the banks: for each its number, size and regions. -/
def view (rom : Rom) : List (Nat × Nat × Option Nat × List Buffer) :=
  rom.banks.map fun (key, bank) => (key, bank.number, bank.maxsize, bank.regions)

/-- A region that is closed stays in its place. -/
theorem closeRegion_run (keyed : rom.Keyed) {pos : Pos}
    (ran : closeRegion pos rom = .ok () rom') : rom.Keeps rom' ∧ rom'.view = rom.view := by
  -- The open region is put behind the closed ones before its extent is checked.
  simp only [closeRegion, bind_eq_ok] at ran
  obtain ⟨bank, middle, current, ran⟩ := ran
  obtain ⟨entered, found, -, same⟩ := currentBank_run keyed current
  cases opened : bank.current with
  | none => simp [opened] at ran
  | some region =>
    obtain rfl := same (by simp [opened])
    simp only [opened, bind_eq_ok] at ran
    obtain ⟨_, closed, put, ran⟩ := ran
    -- The region moves to the end of the closed ones, which is where it stood.
    have regions : Bank.regions { bank with closed := bank.closed ++ [region], current := none } =
        bank.regions := by
      simp [Bank.regions, opened]
    have kept := setBank_run keyed found put (.ofEq rfl regions)
    simp only [setBank, modify_eq_ok] at put
    have seen : closed.view = middle.view := by
      rw [← put]
      rw [← keyed.number (Entries.mem_of_get? found)] at found
      exact Entries.map_insert_of_get? _ found (by simp [regions])
    -- What is left to do only asks whether the region fits.
    have unchanged : closed = rom' := by
      cases overlaps : bank.overlapping region.org region.stop with
      | some other => simp [overlaps] at ran
      | none =>
        cases limit : bank.maxsize with
        | none => simpa [overlaps, limit] using ran
        | some maxsize =>
          simp only [overlaps, limit] at ran
          split at ran
          · simp at ran
          · simpa using ran
    subst unchanged
    exact ⟨kept, seen⟩

/-- Closing what is open leaves every region in its place. -/
theorem closeEach_run (keyed : rom.Keyed) {pos : Pos} {numbers : List Nat}
    (ran : closeEach pos numbers rom = .ok () rom') : rom'.Keyed ∧ rom'.view = rom.view := by
  -- Each bank is selected and its region closed, and neither is seen.
  induction numbers generalizing rom with
  | nil =>
    simp only [closeEach, pure_eq_ok, true_and] at ran
    exact ran ▸ ⟨keyed, rfl⟩
  | cons number others ih =>
    simp only [closeEach, bind_eq_ok, modify_eq_ok] at ran
    obtain ⟨_, _, rfl, _, middle, closed, ran⟩ := ran
    have selected : rom.Keeps { rom with current := number } := .ofBanks keyed rfl
    obtain ⟨kept, seen⟩ := closeRegion_run selected.keyed closed
    obtain ⟨last, same⟩ := ih kept.keyed ran
    exact ⟨last, same.trans seen⟩

/-- Closing whatever is open leaves every region in its place. -/
theorem closeAll_run (keyed : rom.Keyed) {pos : Pos} (ran : closeAll pos rom = .ok () rom') :
    rom'.Keyed ∧ rom'.view = rom.view := by
  -- The open banks are listed and closed one after another.
  simp only [closeAll, bind_eq_ok, get_eq_ok] at ran
  obtain ⟨_, _, ⟨rfl, rfl⟩, ran⟩ := ran
  exact closeEach_run keyed ran

/-- A region is seen in its place. -/
theorem region?_eq_view (rom : Rom) (bank index : Nat) :
    rom.region? bank index = (Entries.get? bank rom.view).bind fun seen => seen.2.2[index]? := by
  -- The view has an entry for each bank, under the same key and in the same order.
  unfold region? view
  induction rom.banks with
  | nil => rfl
  | cons head rest ih =>
    obtain ⟨key, found⟩ := head
    by_cases here : key = bank
    · simp [Entries.get?, here]
    · simpa [Entries.get?, here] using ih

/-- Writing into reserved space replaces one region, which takes the bytes. -/
theorem writeAt_run (keyed : rom.Keyed) {slot : Slot} {bytes : List UInt8} {region : Buffer}
    (found : rom.region? slot.bank slot.region = some region)
    (ran : writeAt slot bytes rom = .ok () rom') :
    rom.Replaces rom' slot.bank slot.region (region.writeAt slot.offset bytes) := by
  -- The bank of the slot is there, and with it the region.
  simp only [writeAt, bind_eq_ok, get_eq_ok] at ran
  obtain ⟨_, _, ⟨rfl, rfl⟩, ran⟩ := ran
  obtain ⟨bank, entered, inside⟩ := Option.bind_eq_some_iff.1 found
  simp only [entered, setBank, modify_eq_ok] at ran
  have number : (bank.writeAt slot.region slot.offset bytes).number = bank.number := by
    unfold Bank.writeAt
    split <;> rfl
  rw [number, keyed.number (Entries.mem_of_get? entered)] at ran
  subst ran
  rw [Bank.regions_getElem?] at inside
  -- The region is a closed one or the open one, and is changed where it stands.
  refine .ofBank keyed entered number ?_ fun index other => ?_
  · -- In its own place stands the region with the bytes in it.
    rw [Bank.regions_getElem?]
    unfold Bank.writeAt
    split at inside
    · rename_i closed
      obtain ⟨within, same⟩ := List.getElem?_eq_some_iff.1 inside
      simp [closed, same]
    · rename_i behind
      simp only [behind, if_false]
      split at inside
      · rename_i last
        simp [last, inside]
      · cases inside
  · -- In all other places nothing changes.
    rw [Bank.regions_getElem?, Bank.regions_getElem?]
    unfold Bank.writeAt
    split
    · simp [other.symm]
    · rename_i behind
      have last : slot.region = bank.closed.length := by
        rw [if_neg behind] at inside
        split at inside
        · assumption
        · cases inside
      have elsewhere : index ≠ bank.closed.length := last ▸ other
      simp [elsewhere]

/-! ### Requests -/

/-- A request to the banks. -/
inductive Request
  | select (number : Nat) (maxsize : Option Nat)
  | setBanksize (size : Nat)
  | setPadding (padding : Padding)
  | openRegion (org : Nat) (maxsize : Option Nat) (pos : Pos)
  | closeRegion (pos : Pos)
  | closeAll (pos : Pos)
  | address (pos : Pos)
  | reserve (size : Nat) (pos : Pos)
  | write (bytes : List UInt8) (pos : Pos)
  | align (multiple : Nat) (pos : Pos)
  | writeAt (slot : Slot) (bytes : List UInt8)

namespace Request

/-- What a request does, apart from its answer. -/
def step : Request → RomStep Unit
  | .select number maxsize => Rom.select number maxsize
  | .setBanksize size => Rom.setBanksize size
  | .setPadding padding => Rom.setPadding padding
  | .openRegion org maxsize pos => Rom.openRegion org maxsize pos
  | .closeRegion pos => Rom.closeRegion pos
  | .closeAll pos => Rom.closeAll pos
  | .address pos => do
    let _ ← Rom.address pos
  | .reserve size pos => do
    let _ ← Rom.reserve size pos
  | .write bytes pos => do
    let _ ← Rom.write bytes pos
  | .align multiple pos => Rom.align multiple pos
  | .writeAt slot bytes => Rom.writeAt slot bytes

end Request

end Rom

end CrossAsm
