import CrossAsm.Proofs.Memory.ByteMap
import CrossAsm.Proofs.Memory.Capacity

/-! Which regions a bank accepts. A region is looked at when it is opened, at each byte put into it and
when it is closed, and only against the regions before it; all of these looks together come to one
condition on the set of all regions, so that their order does not matter. -/

namespace CrossAsm

/-! ### A region and the regions before it -/

/-- A region takes at least one address. -/
theorem Buffer.org_lt_stop (region : Buffer) : region.org < region.stop := by
  -- An empty region counts as one address.
  unfold Buffer.stop
  omega

/-- No closed region is in the way of a range exactly if all of them are disjoint from it. -/
theorem Bank.overlapping_eq_none_iff {bank : Bank} {start stop : Nat} (proper : start < stop) :
    bank.overlapping start stop = none ↔
      ∀ other ∈ bank.closed, Disjoint other.range (Set.Ico start stop) := by
  -- No region is found exactly if each of them is passed over.
  unfold Bank.overlapping
  rw [List.find?_eq_none]
  refine forall₂_congr fun other _ => ?_
  -- Neither of the two ranges is empty, so that they are disjoint only if one ends before the other.
  have taken := other.org_lt_stop
  rw [Buffer.range, Set.Ico_disjoint_Ico]
  simp only [Bool.and_eq_true, decide_eq_true_eq]
  omega

/-- A region with bytes put behind those that it has. -/
def Buffer.appended (region : Buffer) (bytes : List UInt8) : Buffer :=
  { region with data := region.data ++ bytes.map some }

/-- The bytes that are put down come to those that there are. -/
theorem Buffer.length_appended (region : Buffer) (bytes : List UInt8) :
    (region.appended bytes).length = region.length + bytes.length := by
  -- They stand behind the data.
  simp [Buffer.appended, Buffer.length]

/-- Behind bytes that are put down there is room exactly where there was room for both. -/
theorem Buffer.admits_appended {region : Buffer} {bytes : List UInt8} {size : Nat} :
    (region.appended bytes).Admits size ↔ region.Admits (bytes.length + size) := by
  -- Both limits are limits on the same sum.
  have sum : (region.appended bytes).length + size = region.length + (bytes.length + size) := by
    rw [Buffer.length_appended, Nat.add_assoc]
  constructor
  · rintro ⟨within, inside⟩
    rw [sum] at inside
    exact ⟨fun maxsize limit => sum ▸ within maxsize limit, inside⟩
  · rintro ⟨within, inside⟩
    rw [← sum] at inside
    exact ⟨fun maxsize limit => sum ▸ within maxsize limit, inside⟩

/-- Room for some bytes is room for fewer. -/
theorem Buffer.Admits.le {region : Buffer} {size less : Nat} (room : region.Admits size)
    (fewer : less ≤ size) : region.Admits less := by
  -- Both limits are upper bounds.
  obtain ⟨within, inside⟩ := room
  refine ⟨fun maxsize limit => ?_, by omega⟩
  have := within maxsize limit
  omega

namespace Rom

/-! ### Steps that succeed exactly under a condition -/

/-- The current bank, and the fill of regions that are opened in it. -/
structure At (rom : Rom) (padding : Padding) (bank : Bank) : Prop where
  /-- The banks stand under their numbers. -/
  keyed : rom.Keyed
  /-- The current bank, as it is or as it would be made. -/
  bank : rom.bankAt rom.current = bank
  /-- The fill. -/
  padding : rom.padding = padding

/-- A step that succeeds on a bank exactly under a condition, and then gives an answer and leaves
another bank in its place. -/
def Grants {α : Type} (padding : Padding) (step : RomStep α) (bank : Bank) (condition : Prop)
    (answer : α) (after : Bank) : Prop :=
  ∀ rom, rom.At padding bank →
    (condition → ∃ rom', step rom = .ok answer rom' ∧ rom'.At padding after) ∧
    (¬condition → ∃ e rom', step rom = .error e rom')

variable {rom rom' : Rom} {padding : Padding} {bank middle after : Bank} {pos : Pos}
  {condition next : Prop}

/-- Making a bank leaves the fill. -/
theorem padding_entered (rom : Rom) : rom.entered.padding = rom.padding := by
  -- Whether the bank is made or was there, only the list of banks is changed.
  unfold entered
  split <;> rfl

/-- Making the current bank changes nothing about it. -/
theorem At.entered (here : rom.At padding bank) : rom.entered.At padding bank := by
  -- The bank that is found in its place is the same.
  have keyed := (currentBank_run here.keyed (currentBank_eq rom)).1.keyed
  refine ⟨keyed, ?_, (padding_entered rom).trans here.padding⟩
  rw [bankAt_entered, current_entered, here.bank]

/-- The current bank has the number of the current bank. -/
theorem At.number (here : rom.At padding bank) : bank.number = rom.current := by
  -- Banks are found by their numbers.
  rw [← here.bank]
  exact here.keyed.number_bankAt rom.current

/-- A bank that is put in the place of the current one is the current one. -/
theorem At.put (here : rom.At padding bank) (number : after.number = bank.number) :
    At { rom with banks := Entries.insert after.number after rom.banks } padding after := by
  -- It is found under the number of the bank that it replaces.
  refine ⟨here.keyed.insert rfl, ?_, here.padding⟩
  simp [bankAt, Entries.get?_insert, number, here.number]

/-- An answer is always given. -/
theorem grants_pure {α : Type} (answer : α) : Grants padding (pure answer) bank True answer bank :=
  fun rom here => ⟨fun _ => ⟨rom, rfl, here⟩, fun fails => absurd trivial fails⟩

/-- A check that is passed exactly under a condition changes nothing. -/
theorem grants_check {check : RomStep Unit} (passed : condition → check = pure ())
    (failed : ¬condition → ∃ e, check = throw e) : Grants padding check bank condition () bank := by
  -- Whether the condition holds decides which of the two steps it is.
  intro rom here
  refine ⟨fun holds => ⟨rom, ?_, here⟩, fun fails => ?_⟩
  · rw [passed holds]
    rfl
  · obtain ⟨e, same⟩ := failed fails
    exact ⟨e, rom, by rw [same]; rfl⟩

/-- Another bank can always be put in the place of the current one. -/
theorem setBank_grants (number : after.number = bank.number) :
    Grants padding (setBank after) bank True () after :=
  fun _ here => ⟨fun _ => ⟨_, rfl, here.put number⟩, fun fails => absurd trivial fails⟩

/-- The current bank can always be asked for. -/
theorem currentBank_grants (bank : Bank) : Grants padding currentBank bank True bank bank := by
  -- It is made if it is not there.
  intro rom here
  refine ⟨fun _ => ⟨rom.entered, ?_, here.entered⟩, fun fails => absurd trivial fails⟩
  rw [currentBank_eq, here.bank]

/-- One step after another succeeds exactly if both do. -/
theorem Grants.bind {α β : Type} {first : RomStep α} {rest : α → RomStep β} {a : α} {b : β}
    (early : Grants padding first bank condition a middle)
    (late : condition → Grants padding (rest a) middle next b after) :
    Grants padding (first >>= rest) bank (condition ∧ next) b after := by
  -- Whether the first step is granted decides whether the second one is run.
  intro rom here
  obtain ⟨granted, refused⟩ := early rom here
  by_cases holds : condition
  · -- The first step succeeds, so that all is left to the second one.
    obtain ⟨rom', ran, there⟩ := granted holds
    have goesOn : (first >>= rest) rom = rest a rom' := by
      show EStateM.bind _ _ rom = _
      rw [EStateM.bind, ran]
    obtain ⟨granted', refused'⟩ := late holds rom' there
    rw [goesOn]
    exact ⟨fun both => granted' both.2, fun notBoth => refused' fun also => notBoth ⟨holds, also⟩⟩
  · obtain ⟨e, rom', failed⟩ := refused holds
    refine ⟨fun both => absurd both.1 holds, fun _ => ⟨e, rom', ?_⟩⟩
    show EStateM.bind _ _ rom = _
    rw [EStateM.bind, failed]

/-- A condition may be put in other words. -/
theorem Grants.congr {α : Type} {step : RomStep α} {answer : α}
    (grants : Grants padding step bank condition answer after) (same : condition ↔ next) :
    Grants padding step bank next answer after :=
  fun rom here => ⟨fun holds => (grants rom here).1 (same.2 holds),
    fun fails => (grants rom here).2 (mt same.1 fails)⟩

/-- A step before one that always succeeds decides alone. -/
theorem Grants.bindAlways {α β : Type} {first : RomStep α} {rest : α → RomStep β} {a : α} {b : β}
    (early : Grants padding first bank condition a middle)
    (late : Grants padding (rest a) middle True b after) :
    Grants padding (first >>= rest) bank condition b after :=
  (early.bind fun _ => late).congr (and_iff_left trivial)

/-- A step behind one that always succeeds decides alone. -/
theorem Grants.alwaysBind {α β : Type} {first : RomStep α} {rest : α → RomStep β} {a : α} {b : β}
    (early : Grants padding first bank True a middle)
    (late : Grants padding (rest a) middle next b after) :
    Grants padding (first >>= rest) bank next b after :=
  (early.bind fun _ => late).congr (and_iff_right trivial)

/-- A step that is granted exactly under a condition succeeds if and only if it holds. -/
theorem Grants.iff {step : RomStep Unit} (grants : Grants padding step bank condition () after)
    (here : rom.At padding bank) : (∃ rom', step rom = .ok () rom') ↔ condition := by
  -- Where the condition fails the step fails, and so it did not succeed.
  constructor
  · rintro ⟨rom', ran⟩
    by_contra fails
    obtain ⟨e, rom'', failed⟩ := (grants rom here).2 fails
    cases ran.symm.trans failed
  · intro holds
    obtain ⟨rom', ran, -⟩ := (grants rom here).1 holds
    exact ⟨rom', ran⟩

/-! ### Opening, putting down, closing -/

/-- A region is opened exactly where it lies inside the address space and no other is in its way. -/
theorem openRegion_grants (shut : bank.current = none) (org : Nat) (maxsize : Option Nat) (pos : Pos) :
    Grants padding (openRegion org maxsize pos) bank
      (Buffer.stop ⟨org, maxsize, padding, []⟩ ≤ addressSpace ∧
        ∀ other ∈ bank.closed, Disjoint other.range (Buffer.range ⟨org, maxsize, padding, []⟩))
      () { bank with current := some ⟨org, maxsize, padding, []⟩ } := by
  -- The three checks are passed one after another, each under a part of the condition.
  intro rom here
  obtain rfl := (padding_entered rom).trans here.padding
  generalize blank : (⟨org, maxsize, rom.entered.padding, []⟩ : Buffer) = region
  -- A region without a size is checked as the one byte that it takes at least.
  have stops : region.stop = org + max (maxsize.getD 1) 1 := by
    subst blank
    simp only [Buffer.stop, Buffer.extent, Buffer.length, List.length_nil]
    cases maxsize with
    | none => simp
    | some maxsize =>
      simp only [Option.getD_some]
      omega
  -- A sum that is cut off compares with the end of the address space as the true one does.
  have limit : addressSpace < saturatingAdd org (max (maxsize.getD 1) 1) ↔
      addressSpace < region.stop := by
    rw [stops, saturatingAdd, addressSpace]
    omega
  -- Looking for a region in the way compares ranges.
  have looked : region.stop ≤ addressSpace → (bank.overlapping org
      (saturatingAdd org (max (maxsize.getD 1) 1)) = none ↔
        ∀ other ∈ bank.closed, Disjoint other.range region.range) := by
    intro inside
    have same : saturatingAdd org (max (maxsize.getD 1) 1) = region.stop := by
      rw [stops, addressSpace] at inside
      rw [stops, saturatingAdd]
      omega
    have first : region.org = org := by rw [← blank]
    rw [same, ← first]
    exact Bank.overlapping_eq_none_iff region.org_lt_stop
  constructor
  · -- Every check is passed, and the region is opened.
    rintro ⟨inside, apart⟩
    have within := mt limit.1 (Nat.not_lt.2 inside)
    have free := (looked inside).2 apart
    refine ⟨_, ?_, here.entered.put rfl⟩
    rw [openRegion, bind_currentBank, here.bank, ← blank]
    simp only [shut, Option.isSome_none, Bool.false_eq_true, within, free, if_false]
    rfl
  · -- One of the checks is not passed.
    intro fails
    rw [openRegion, bind_currentBank, here.bank]
    by_cases outside : addressSpace < region.stop
    · exact ⟨_, _, by
        simp only [shut, Option.isSome_none, Bool.false_eq_true, limit.2 outside, if_true, if_false]
        rfl⟩
    · -- Inside the address space another region must be in the way.
      have inside := Nat.not_lt.1 outside
      cases found : bank.overlapping org (saturatingAdd org (max (maxsize.getD 1) 1)) with
      | none => exact absurd ⟨inside, (looked inside).1 found⟩ fails
      | some other =>
        exact ⟨_, _, by
          simp only [shut, Option.isSome_none, Bool.false_eq_true, mt limit.1 outside, found,
            if_false]
          rfl⟩

/-- Work on the open region succeeds exactly if it does so on the region alone. -/
theorem onRegion_grants {α : Type} {f : Buffer → Except Error (α × Buffer)} {region : Buffer}
    (answer : α) (region' : Buffer) (isOpen : bank.current = some region)
    (works : ∀ a worked, f region = .ok (a, worked) ↔ condition ∧ a = answer ∧ worked = region')
    (pos : Pos) :
    Grants padding (onRegion pos f) bank condition answer
      { bank with current := some region' } := by
  -- The region is open, so that its own answer is the answer of the bank.
  intro rom here
  refine ⟨fun holds => ?_, fun fails => ?_⟩
  · refine ⟨_, ?_, here.entered.put rfl⟩
    rw [onRegion, bind_currentBank, here.bank]
    simp only [isOpen, (works answer region').2 ⟨holds, rfl, rfl⟩]
    rfl
  · rw [onRegion, bind_currentBank, here.bank]
    cases worked : f region with
    | ok result => exact absurd ((works _ _).1 worked).1 fails
    | error e => exact ⟨e, _, by simp only [isOpen, worked]; rfl⟩

/-- Bytes are written exactly where there is room for them. -/
theorem write_grants {region : Buffer} (isOpen : bank.current = some region) (bytes : List UInt8)
    (pos : Pos) :
    Grants padding (write bytes pos) bank (region.Admits bytes.length) region.length
      { bank with current := some (region.appended bytes) } :=
  onRegion_grants _ _ isOpen (fun _ _ => Buffer.write_iff) pos

/-- Bytes, at least one, are reserved exactly where there is room for them. -/
theorem reserve_grants {region : Buffer} (isOpen : bank.current = some region) {size : Nat}
    (proper : 0 < size) (short : addressSpace + size ≤ Word.count) (pos : Pos) :
    Grants padding (reserve size pos) bank (region.Admits size)
      (⟨bank.number, bank.closed.length, region.length⟩, UInt16.ofNat region.cursor)
      { bank with current := some (region.extended size) } := by
  -- Where there is room for a byte, the cursor has an address.
  have addressed : region.Admits size → region.address pos = .ok (UInt16.ofNat region.cursor) := by
    intro room
    have := room.inside
    unfold Buffer.address
    rw [if_pos (by unfold Buffer.cursor; omega)]
  unfold reserve
  refine Grants.bindAlways (onRegion_grants (region.length, UInt16.ofNat region.cursor)
    (region.extended size) isOpen (fun a worked => ?_) pos) ?_
  · -- What is done with the region, and then what is asked of the bank.
    simp only [except_bind_eq_ok, except_pure_eq_ok, Prod.mk.injEq, Prod.exists]
    -- Where the cursor has an address, there are as many words behind it.
    have exactly : ∀ {address}, region.address pos = .ok address → ∀ {offset grown},
        region.reserve size pos = .ok (offset, grown) ↔
          region.Admits size ∧ offset = region.length ∧ grown = region.extended size := by
      intro address asked offset grown
      obtain ⟨low, -⟩ := Buffer.address_eq_ok asked
      exact Buffer.reserve_iff (by omega)
    -- What was reserved had room, and is where the cursor was.
    constructor
    · rintro ⟨address, asked, _, _, reserved, rfl, rfl⟩
      obtain ⟨room, rfl, rfl⟩ := (exactly asked).1 reserved
      cases asked.symm.trans (addressed room)
      exact ⟨room, rfl, rfl⟩
    · -- Room is enough for the address and for the bytes.
      rintro ⟨room, rfl, rfl⟩
      have asked := addressed room
      exact ⟨_, asked, _, _, (exactly asked).2 ⟨room, rfl, rfl⟩, rfl, rfl⟩
  · -- The place of the bytes is asked for in the bank that is left.
    exact Grants.alwaysBind (currentBank_grants _) (grants_pure
      ((⟨bank.number, bank.closed.length, region.length⟩ : Slot), UInt16.ofNat region.cursor))

/-- Bytes can always be filled into the open region. -/
theorem writeAt_grants {region : Buffer} (isOpen : bank.current = some region) (offset : Nat)
    (bytes : List UInt8) :
    Grants padding (writeAt ⟨bank.number, bank.closed.length, offset⟩ bytes) bank True ()
      { bank with current := some (region.writeAt offset bytes) } := by
  intro rom here
  -- A bank with an open region is not one that would be made.
  obtain ⟨-, found, -, present⟩ := currentBank_run here.keyed (currentBank_eq rom)
  rw [here.bank] at found present
  rw [present (by simp [isOpen])] at found
  have filled : bank.writeAt bank.closed.length offset bytes =
      { bank with current := some (region.writeAt offset bytes) } := by
    simp [Bank.writeAt, isOpen]
  refine ⟨fun _ => ⟨_, ?_, here.put rfl⟩, fun fails => absurd trivial fails⟩
  rw [← filled]
  simp only [writeAt, bind_eq_ok, get_eq_ok]
  refine ⟨rom, rom, ⟨rfl, rfl⟩, ?_⟩
  simp only [here.number, found]
  rfl

/-- The open region is closed exactly if no other one is in its way and all fit into the bank. -/
theorem closeRegion_grants {region : Buffer} (isOpen : bank.current = some region) (pos : Pos) :
    Grants padding (closeRegion pos) bank
      ((∀ other ∈ bank.closed, Disjoint other.range region.range) ∧
        ∀ limit ∈ bank.maxsize, total ((bank.closed ++ [region]).map Buffer.extent) ≤ limit)
      () { bank with closed := bank.closed ++ [region], current := none } := by
  -- The bank is put back with the region closed, and then the two checks are made.
  have looked : bank.overlapping region.org region.stop = none ↔ _ :=
    Bank.overlapping_eq_none_iff region.org_lt_stop
  have used : Bank.used { bank with closed := bank.closed ++ [region], current := none } =
      total ((bank.closed ++ [region]).map Buffer.extent) := by
    simp [Bank.used, Bank.regions]
  refine Grants.alwaysBind (currentBank_grants bank) ?_
  simp only [isOpen]
  refine Grants.alwaysBind (setBank_grants rfl) ?_
  -- The bank is as it will be, and what is left to do only looks at it.
  refine grants_check (fun holds => ?_) (fun fails => ?_)
  · obtain ⟨apart, bounded⟩ := holds
    simp only [looked.2 apart, used]
    split
    · rename_i limit sized
      rw [if_neg (Nat.not_lt.2 (bounded limit sized))]
    · rfl
  · cases found : bank.overlapping region.org region.stop with
    | some other => exact ⟨_, rfl⟩
    | none =>
      -- No region is in the way, so that there must be a size that is exceeded.
      have exceeded := not_and.1 fails (looked.1 found)
      push Not at exceeded
      obtain ⟨limit, sized, less⟩ := exceeded
      rw [Option.mem_def] at sized
      simp only [used]
      simp only [sized, if_pos less]
      exact ⟨_, rfl⟩

end Rom

/-! ### What all these looks come to -/

/-- Regions that find room in a bank of some size beside each other. -/
structure Bank.Holds (size : Option Nat) (regions : List Buffer) : Prop where
  /-- Each of them lies inside the address space and holds no more than it may. -/
  fits : ∀ region ∈ regions, region.Fits
  /-- No two of them share an address. -/
  disjoint : (regions.map Buffer.range).Pairwise Disjoint
  /-- Together they take no more than the size. -/
  bounded : ∀ limit ∈ size, total (regions.map Buffer.extent) ≤ limit

/-- Without the last ones the others find room as well. -/
theorem Bank.Holds.append_left {size : Option Nat} {regions others : List Buffer}
    (holds : Holds size (regions ++ others)) : Holds size regions := by
  -- Each of the three parts holds of fewer regions too.
  obtain ⟨fits, disjoint, bounded⟩ := holds
  refine ⟨fun region inside => fits region (List.mem_append_left _ inside), ?_, fun limit sized => ?_⟩
  · rw [List.map_append] at disjoint
    exact (List.pairwise_append.1 disjoint).1
  · have all := bounded limit sized
    rw [total_eq_sum, List.map_append, List.sum_append] at all
    rw [total_eq_sum]
    omega

/-- One more region finds room exactly if it fits and no other one is in its way, and all of them
together do not take too much. -/
theorem Bank.Holds.append_singleton_iff {size : Option Nat} {regions : List Buffer}
    (holds : Holds size regions) {region : Buffer} :
    Holds size (regions ++ [region]) ↔
      region.Fits ∧ (∀ other ∈ regions, Disjoint other.range region.range) ∧
        ∀ limit ∈ size, total ((regions ++ [region]).map Buffer.extent) ≤ limit := by
  -- All pairs but those with the new region are disjoint already.
  have pairwise : ((regions ++ [region]).map Buffer.range).Pairwise Disjoint ↔
      ∀ other ∈ regions, Disjoint other.range region.range := by
    rw [List.map_append, List.pairwise_append]
    simp [holds.disjoint]
  constructor
  · rintro ⟨fits, disjoint, bounded⟩
    exact ⟨fits region (by simp), pairwise.1 disjoint, bounded⟩
  · rintro ⟨fits, apart, bounded⟩
    refine ⟨fun other inside => ?_, pairwise.2 apart, bounded⟩
    rcases List.mem_append.1 inside with old | new
    · exact holds.fits other old
    · exact List.mem_singleton.1 new ▸ fits

namespace Rom

/-- Bytes, at least one, that are put into the open region at the cursor. -/
structure Put where
  /-- The bytes. -/
  bytes : List UInt8
  /-- There is at least one. -/
  proper : bytes ≠ []
  /-- They are held in memory. -/
  short : bytes.length < Word.memory
  /-- Whether they are filled into space that is reserved for them first. -/
  reserved : Bool
  /-- Where it is asked for. -/
  pos : Pos := {}

/-- What is done to put bytes down. -/
def Put.step (put : Put) : RomStep Unit := do
  if put.reserved then
    let (slot, _) ← reserve put.bytes.length put.pos
    writeAt slot put.bytes
  else
    let _ ← write put.bytes put.pos

/-- What is done to put bytes down one after another. -/
def putAll : List Put → RomStep Unit
  | [] => return ()
  | put :: others => do
    put.step
    putAll others

/-- A region, with all that is put into it from when it is opened to when it is closed. -/
structure Script where
  /-- The address of the first byte. -/
  org : Nat
  /-- The most bytes the region may hold. -/
  maxsize : Option Nat
  /-- What is put into it. -/
  puts : List Put
  /-- Where it is opened. -/
  opened : Pos := {}
  /-- Where it is closed. -/
  closed : Pos := {}

namespace Script

/-- The number of bytes that are put down. -/
def length (script : Script) : Nat :=
  total (script.puts.map fun put => put.bytes.length)

/-- The bytes that the region takes in its bank. -/
def extent (script : Script) : Nat :=
  max (script.maxsize.getD 0) script.length

/-- The addresses that the region takes, at least one. -/
def range (script : Script) : Set Nat :=
  Set.Ico script.org (script.org + max script.extent 1)

/-- What is done for a region. -/
def step (script : Script) : RomStep Unit := do
  openRegion script.org script.maxsize script.opened
  putAll script.puts
  closeRegion script.closed

/-- What is done for regions one after another. -/
def performAll : List Script → RomStep Unit
  | [] => return ()
  | script :: others => do
    script.step
    performAll others

/-- The region as it is opened. -/
def blank (padding : Padding) (script : Script) : Buffer :=
  ⟨script.org, script.maxsize, padding, []⟩

/-- The region as it is closed. -/
def region (padding : Padding) (script : Script) : Buffer :=
  (script.blank padding).appended (script.puts.flatMap Put.bytes)

/-- Whether everything that is done for some regions in order succeeds. -/
def Accepted (rom : Rom) (scripts : List Script) : Prop :=
  ∃ rom', performAll scripts rom = .ok () rom'

end Script

variable {rom rom' : Rom} {padding : Padding} {bank : Bank}

/-- Bytes are put down exactly where there is room for them, in either way. -/
theorem Put.step_grants (put : Put) {region : Buffer} (isOpen : bank.current = some region) :
    Grants padding put.step bank (region.Admits put.bytes.length) ()
      { bank with current := some (region.appended put.bytes) } := by
  -- The bytes are put down at once, or into space that is reserved for them first.
  unfold Put.step
  split
  · -- Filling the space that was just reserved is as good as writing at the cursor.
    have filled : (region.extended put.bytes.length).writeAt region.length put.bytes =
        region.appended put.bytes := Buffer.writeAt_extended region put.bytes
    rw [← filled]
    have short : addressSpace + put.bytes.length ≤ Word.count := by
      have held := put.short
      simp only [addressSpace, Word.count, Word.memory] at held ⊢
      omega
    exact Grants.bindAlways
      (reserve_grants isOpen (List.length_pos_of_ne_nil put.proper) short put.pos)
      (writeAt_grants rfl region.length put.bytes)
  · exact Grants.bindAlways (write_grants isOpen put.bytes put.pos) (grants_pure ())

/-- Bytes are put down one after another exactly where there is room for all of them, if the limits
are kept at the start. -/
theorem putAll_grants (puts : List Put) {region : Buffer} (isOpen : bank.current = some region)
    (room : region.Admits 0) :
    Grants padding (putAll puts) bank
      (region.Admits (total (puts.map fun put => put.bytes.length))) ()
      { bank with current := some (region.appended (puts.flatMap Put.bytes)) } := by
  -- The induction is on what is left to put down, with the region as it is by then.
  induction puts generalizing bank region with
  | nil =>
    have same : { bank with current := some (region.appended []) } = bank := by
      simp [Buffer.appended, ← isOpen]
    rw [List.flatMap_nil, same]
    exact (grants_pure ()).congr (iff_of_true trivial room)
  | cons put others ih =>
    have joined : (region.appended put.bytes).appended (others.flatMap Put.bytes) =
        region.appended ((put :: others).flatMap Put.bytes) := by
      simp [Buffer.appended]
    rw [← joined]
    refine Grants.congr (Grants.bind (put.step_grants isOpen) fun admitted =>
      ih rfl (Buffer.admits_appended.2 admitted)) ?_
    -- Room for all of the bytes is room for the first ones too.
    rw [List.map_cons, total_cons, Buffer.admits_appended]
    exact and_iff_right_of_imp fun all => all.le (Nat.le_add_right _ _)

namespace Script

/-- The region holds as many bytes as are put down. -/
theorem length_region (padding : Padding) (script : Script) :
    (script.region padding).length = script.length := by
  -- The region starts empty, and every write adds its bytes.
  rw [region, Buffer.length_appended, length, List.length_flatMap, total_eq_sum]
  simp [blank, Buffer.length]

/-- The region takes in its bank what the script says. -/
theorem extent_region (padding : Padding) (script : Script) :
    (script.region padding).extent = script.extent := by
  -- The bytes are as many as the script says, and the limit is the same.
  rw [Buffer.extent, length_region]
  rfl

/-- The region ends where the script says. -/
theorem stop_region (padding : Padding) (script : Script) :
    (script.region padding).stop = script.org + max script.extent 1 := by
  -- The extent is that of the script.
  rw [Buffer.stop, extent_region]
  rfl

/-- The region takes the addresses that the script says. -/
theorem range_region (padding : Padding) (script : Script) :
    (script.region padding).range = script.range := by
  -- Both ends are those of the script.
  rw [Buffer.range, stop_region]
  rfl

/-- The region takes as much as it may and one address at least when it is opened. -/
theorem stop_blank (padding : Padding) (script : Script) :
    (script.blank padding).stop = script.org + max (script.maxsize.getD 0) 1 := by
  -- No byte is in it yet, so that its limit is all that counts.
  simp [blank, Buffer.stop, Buffer.extent, Buffer.length]

/-- The region takes all addresses when it is closed that it took when it was opened. -/
theorem range_blank_subset (padding : Padding) (script : Script) :
    (script.blank padding).range ⊆ (script.region padding).range := by
  -- It starts at the same address and ends no earlier.
  apply Set.Ico_subset_Ico_right
  rw [stop_blank, stop_region, extent]
  omega

/-- A region that is opened inside the address space and has room for all its bytes fits in the end. -/
theorem fits_region_iff (padding : Padding) (script : Script) :
    (script.region padding).Fits ↔
      (script.blank padding).stop ≤ addressSpace ∧ (script.blank padding).Admits script.length := by
  -- What a region takes is the larger of its size and its bytes: the first is looked at when it is
  -- opened, and the second at each byte.
  have empty : (script.blank padding).length + script.length = script.length := Nat.zero_add _
  constructor
  · rintro ⟨inside, size⟩
    rw [length_region] at size
    rw [stop_region, extent] at inside
    refine ⟨?_, fun maxsize limit => ?_, ?_⟩
    · rw [stop_blank]
      omega
    · rw [empty]
      exact size maxsize limit
    · show script.org + _ ≤ _
      rw [empty]
      omega
  · rintro ⟨opened, within, inside⟩
    rw [stop_blank] at opened
    rw [empty] at within inside
    replace inside : script.org + script.length ≤ addressSpace := inside
    refine ⟨?_, ?_⟩
    · rw [stop_region, extent]
      omega
    · rw [length_region]
      exact within

/-- Everything done for one region succeeds exactly if it finds room beside those that are closed. -/
theorem step_grants (script : Script) (shut : bank.current = none)
    (holds : Bank.Holds bank.maxsize bank.closed) :
    Grants padding script.step bank
      (Bank.Holds bank.maxsize (bank.closed ++ [script.region padding])) ()
      { bank with closed := bank.closed ++ [script.region padding] } := by
  -- A script opens its region, puts its bytes down and closes it: the conditions are joined.
  have closes : { bank with closed := bank.closed ++ [script.region padding], current := none } =
      { bank with closed := bank.closed ++ [script.region padding] } := by
    rw [shut]
  rw [← closes]
  refine Grants.congr (Grants.bind (openRegion_grants shut script.org script.maxsize script.opened)
    fun opened => Grants.bind (putAll_grants script.puts rfl ?_) fun _ =>
      closeRegion_grants rfl script.closed) ?_
  · -- Nothing is put down yet, and the first address lies inside.
    refine ⟨fun _ _ => Nat.zero_le _, ?_⟩
    have first := Buffer.org_lt_stop (script.blank padding)
    exact Nat.le_trans (Nat.le_of_lt first) opened.1
  · rw [holds.append_singleton_iff, fits_region_iff]
    constructor
    · rintro ⟨⟨opened, -⟩, room, apart, bounded⟩
      exact ⟨⟨opened, room⟩, apart, bounded⟩
    · rintro ⟨⟨opened, room⟩, apart, bounded⟩
      -- Where the region is not in the way when it is closed, it was not when it was opened.
      exact ⟨⟨opened, fun other inside =>
        (apart other inside).mono_right (range_blank_subset padding script)⟩, room, apart, bounded⟩

/-- Everything done for regions in order succeeds exactly if all of them find room together. -/
theorem performAll_grants (scripts : List Script) (shut : bank.current = none)
    (holds : Bank.Holds bank.maxsize bank.closed) :
    Grants padding (performAll scripts) bank
      (Bank.Holds bank.maxsize (bank.closed ++ scripts.map (region padding))) ()
      { bank with closed := bank.closed ++ scripts.map (region padding) } := by
  -- The induction is on the regions that are left, with those that are closed by then.
  induction scripts generalizing bank with
  | nil =>
    simp only [List.map_nil, List.append_nil]
    exact (grants_pure ()).congr (iff_of_true trivial holds)
  | cons script others ih =>
    rw [List.map_cons, List.append_cons]
    -- What the first region finds room beside is what the others find room beside, and itself.
    refine Grants.congr (Grants.bind (script.step_grants shut holds) fun more => ih shut more) ?_
    exact and_iff_right_of_imp Bank.Holds.append_left

/-- Regions that find room beside each other in a bank of some size, said of their numbers alone. -/
structure Compatible (size : Option Nat) (scripts : List Script) : Prop where
  /-- No more bytes are put down than a region may hold. -/
  within : ∀ script ∈ scripts, ∀ maxsize ∈ script.maxsize, script.length ≤ maxsize
  /-- Each region ends before the address space does. -/
  inside : ∀ script ∈ scripts, script.org + max script.extent 1 ≤ addressSpace
  /-- No two regions share an address. -/
  disjoint : (scripts.map range).Pairwise Disjoint
  /-- Together they take no more than the size of the bank. -/
  bounded : ∀ limit ∈ size, total (scripts.map extent) ≤ limit

/-- The regions find room exactly if their numbers say so. -/
theorem holds_iff_compatible (padding : Padding) {size : Option Nat} {scripts : List Script} :
    Bank.Holds size (scripts.map (region padding)) ↔ Compatible size scripts := by
  -- All that is asked of the regions is asked of numbers that the scripts have.
  have ranges : (scripts.map (region padding)).map Buffer.range = scripts.map range := by
    rw [List.map_map]
    exact List.map_congr_left fun script _ => range_region padding script
  have extents : (scripts.map (region padding)).map Buffer.extent = scripts.map extent := by
    rw [List.map_map]
    exact List.map_congr_left fun script _ => extent_region padding script
  constructor
  · -- From the regions to the numbers.
    rintro ⟨fits, disjoint, bounded⟩
    rw [ranges] at disjoint
    rw [extents] at bounded
    have each : ∀ script ∈ scripts, (script.region padding).Fits :=
      fun script listed => fits _ (List.mem_map_of_mem listed)
    refine ⟨fun script listed maxsize limit => ?_, fun script listed => ?_, disjoint, bounded⟩
    · rw [← length_region padding]
      exact (each script listed).size maxsize limit
    · rw [← stop_region padding]
      exact (each script listed).inside
  · -- From the numbers to the regions.
    rintro ⟨within, inside, disjoint, bounded⟩
    rw [← ranges] at disjoint
    rw [← extents] at bounded
    refine ⟨List.forall_mem_map.2 fun script listed => ⟨?_, ?_⟩, disjoint, bounded⟩
    · rw [stop_region]
      exact inside script listed
    · rw [length_region]
      exact within script listed

/-- In which order the regions come makes no difference to their numbers. -/
theorem Compatible.perm {size : Option Nat} {scripts others : List Script}
    (compatible : Compatible size scripts) (same : others.Perm scripts) :
    Compatible size others := by
  -- Only the pairs and the sum look at the list as a whole.
  refine ⟨fun script listed => compatible.within script (same.mem_iff.1 listed),
    fun script listed => compatible.inside script (same.mem_iff.1 listed), ?_, ?_⟩
  · -- Being disjoint is mutual, so that pairs may be taken in any order.
    exact ((same.map range).pairwise_iff fun apart => apart.symm).2 compatible.disjoint
  · rw [total_eq_sum, (same.map extent).sum_eq, ← total_eq_sum]
    exact compatible.bounded

/-- A bank without regions accepts some in order exactly if they find room in it beside each other,
and then in every order. -/
theorem accepted_iff_compatible {rom : Rom} {size : Option Nat} (keyed : rom.Keyed)
    (fresh : rom.bankAt rom.current = { number := rom.current, maxsize := size })
    (scripts : List Script) :
    (Accepted rom scripts ↔ Compatible size scripts) ∧
      ∀ others, others.Perm scripts → (Accepted rom others ↔ Accepted rom scripts) := by
  -- Starting with no regions, what the bank can hold is what the scripts need.
  have exactly : ∀ scripts, Accepted rom scripts ↔ Compatible size scripts := by
    intro scripts
    have empty : Bank.Holds size [] := ⟨nofun, .nil, fun _ _ => Nat.zero_le _⟩
    rw [← holds_iff_compatible rom.padding]
    exact (performAll_grants scripts rfl empty).iff ⟨keyed, fresh, rfl⟩
  refine ⟨exactly scripts, fun others same => ?_⟩
  -- The condition does not look at the order, so neither does the bank.
  rw [exactly, exactly]
  exact ⟨fun compatible => compatible.perm same.symm, fun compatible => compatible.perm same⟩

/-- Two regions that meet without a gap: one grows up to the other, which ends the address space. -/
def meeting : List Script :=
  [⟨0xFFFE, some 2, [⟨[1], by decide, by decide, false, {}⟩], {}, {}⟩,
    ⟨0xFFFB, none, [⟨[2, 3], by decide, by decide, true, {}⟩,
      ⟨[4], by decide, by decide, false, {}⟩], {}, {}⟩]

/-- A bank of five bytes accepts both of them in either order, and a smaller one does not. -/
theorem meeting_accepted :
    Accepted { banksize := some 5 } meeting ∧ Accepted { banksize := some 5 } meeting.reverse ∧
      ¬Accepted { banksize := some 4 } meeting := by
  -- The two regions touch without sharing a byte, and take five together.
  have keyed : ∀ size, Keyed { banksize := some size } := fun size => ⟨nofun, .nil⟩
  obtain ⟨exactly, anyOrder⟩ := accepted_iff_compatible (keyed 5) rfl meeting
  have compatible : Compatible (some 5) meeting := by
    refine ⟨by simp [meeting, length], by simp [meeting, length, extent, addressSpace], ?_, ?_⟩
    · simp [meeting, range, extent, length, Set.Ico_disjoint_Ico]
    · simp [meeting, extent, length]
  refine ⟨exactly.2 compatible, (anyOrder _ (List.reverse_perm _)).2 (exactly.2 compatible), ?_⟩
  rw [(accepted_iff_compatible (keyed 4) rfl meeting).1]
  intro compatible
  have exceeded := compatible.bounded 4 rfl
  simp [meeting, extent, length] at exceeded

end Script

end Rom

end CrossAsm
