import CrossAsm.Proofs.Memory.BankSteps

/-! The regions of a bank are kept apart: every request is a chain of steps on the banks, whether it
succeeds or not, so that every sequence of requests keeps what each step keeps. -/

namespace CrossAsm.Rom

variable {rom rom' : Rom} {pos : Pos}

/-! ### One lemma for each request -/

/-- Selecting a bank makes it, and may set its size. -/
theorem select_moved (keyed : rom.Keyed) {number : Nat} {maxsize : Option Nat}
    (ran : select number maxsize rom = .ok () rom') : rom.Moved rom' := by
  -- The number is changed, the bank made, and its size set if one is given.
  simp only [select, bind_eq_ok, modify_eq_ok] at ran
  obtain ⟨_, selected, rfl, bank, middle, asked, ran⟩ := ran
  rw [currentBank_eq] at asked
  cases asked
  have idle : rom.Moves { rom with current := number } := .idle rfl
  have numbered : Keyed { rom with current := number } := ⟨keyed.number, keyed.distinct⟩
  split at ran
  · exact .head idle (setBank_moved numbered (.resized maxsize) ran)
  · rw [pure_eq_ok] at ran
    obtain ⟨-, rfl⟩ := ran
    exact .head idle (moved_entered _)

/-- A fill is set in the open region too, which it leaves where it is. -/
theorem setPadding_moved (keyed : rom.Keyed) {padding : Padding}
    (ran : setPadding padding rom = .ok () rom') : rom.Moved rom' := by
  -- The fill of the image is no step of a bank, that of the open region is one.
  simp only [setPadding, bind_eq_ok, modify_eq_ok, get_eq_ok] at ran
  obtain ⟨_, _, rfl, _, _, ⟨rfl, rfl⟩, ran⟩ := ran
  have idle : rom.Moves { rom with padding } := .idle rfl
  cases found : Entries.get? rom.current rom.banks with
  | none =>
    simp only [found, pure_eq_ok, true_and] at ran
    subst ran
    exact .single idle
  | some bank =>
    simp only [found, setBank, modify_eq_ok] at ran
    subst ran
    have same : Rom.bankAt { rom with padding } rom.current = bank := by simp [Rom.bankAt, found]
    have number : bank.number = rom.current := keyed.number (Entries.mem_of_get? found)
    refine .head idle (.single (.acts rom.current ?_ (by rw [number])))
    rw [same, ← number]
    cases isOpen : bank.current with
    | none =>
      rw [Option.map_none, ← isOpen]
      exact .resized bank.maxsize
    | some region => exact .worked isOpen fun fits => ⟨fits.inside, fits.size⟩

/-- A request about the current bank that fails with nothing done but that the bank is made, or does
something to the bank. -/
def Attempt {α : Type} (m : RomStep α) : Prop :=
  ∀ rom : Rom, (∃ e, m rom = .error e rom.entered) ∨
    ∃ a bank, (rom.bankAt rom.current).Step bank ∧ m rom =
      .ok a { rom.entered with banks := Entries.insert bank.number bank rom.entered.banks }

/-- Where an attempt fails, every region is as it was. -/
theorem Attempt.contents_of_error {α : Type} {m : RomStep α} (attempt : Attempt m) {e : Error}
    (ran : m rom = .error e rom') (number : Nat) : rom'.contents number = rom.contents number := by
  -- An attempt that fails has only made the current bank.
  obtain ⟨_, failed⟩ | ⟨a, bank, -, done⟩ := attempt rom
  · cases failed.symm.trans ran
    exact contents_entered rom number
  · cases done.symm.trans ran

/-- An attempt takes steps on the banks, whether it succeeds or not. -/
theorem Attempt.moved {α : Type} {m : RomStep α} (attempt : Attempt m) (keyed : rom.Keyed)
    (leaves : Leaves m rom rom') : rom.Moved rom' := by
  -- The attempt fails with the bank only made, or it takes the one step.
  obtain ⟨e, failed⟩ | ⟨a, bank, step, done⟩ := attempt rom
  · obtain ⟨b, ran⟩ | ⟨e', ran⟩ := leaves
    · cases failed.symm.trans ran
    · cases failed.symm.trans ran
      exact moved_entered rom
  · obtain ⟨b, ran⟩ | ⟨e', ran⟩ := leaves
    · cases done.symm.trans ran
      exact setBank_moved keyed step rfl
    · cases done.symm.trans ran

/-- A region is opened empty, inside the address space, and where none is open. -/
theorem openRegion_attempt (org : Nat) (maxsize : Option Nat) (pos : Pos) :
    Attempt (openRegion org maxsize pos) := by
  intro rom
  rw [openRegion, bind_currentBank]
  -- Each check that is not passed is a failure in the same state.
  by_cases isOpen : (rom.bankAt rom.current).current.isSome = true
  · exact .inl ⟨_, by simp only [isOpen, if_true]; rfl⟩
  by_cases outside : addressSpace < saturatingAdd org (max (maxsize.getD 1) 1)
  · exact .inl ⟨_, by simp only [isOpen, outside, if_true]; rfl⟩
  cases overlaps : (rom.bankAt rom.current).overlapping org
      (saturatingAdd org (max (maxsize.getD 1) 1)) with
  | some other => exact .inl ⟨_, by simp only [isOpen, outside, overlaps, if_false]; rfl⟩
  | none =>
    let region : Buffer := ⟨org, maxsize, rom.entered.padding, []⟩
    -- A region without a size starts with one byte, as it is checked.
    have inside : region.stop ≤ addressSpace := by
      simp only [saturatingAdd, addressSpace, region, Buffer.stop, Buffer.extent, Buffer.length,
        List.length_nil] at outside ⊢
      cases maxsize with
      | none =>
        simp only [Option.getD_none] at outside ⊢
        omega
      | some maxsize =>
        simp only [Option.getD_some] at outside ⊢
        omega
    -- All checks are passed, and the region is opened.
    have step : (rom.bankAt rom.current).Step
        { rom.bankAt rom.current with current := some region } :=
      .opened (by simpa using isOpen) rfl inside
    refine .inr ⟨(), _, step, ?_⟩
    simp only [isOpen, outside, overlaps, if_false]
    rfl

/-- Work on the open region, which still fits behind it. -/
theorem onRegion_attempt {α : Type} (pos : Pos) {f : Buffer → Except Error (α × Buffer)}
    (fits : ∀ {region a region'}, f region = .ok (a, region') → region.Fits → region'.Fits) :
    Attempt (onRegion pos f) := by
  -- No region may be open, the work may fail, or it is done.
  intro rom
  rw [onRegion, bind_currentBank]
  cases isOpen : (rom.bankAt rom.current).current with
  | none => exact .inl ⟨_, rfl⟩
  | some region =>
    cases worked : f region with
    | error e => exact .inl ⟨e, by simp only [worked]; rfl⟩
    | ok result =>
      obtain ⟨a, region'⟩ := result
      refine .inr ⟨a, _, .worked isOpen (fits worked), ?_⟩
      simp only [worked]
      rfl

/-- Asking for an address changes no region. -/
theorem address_attempt (pos : Pos) : Attempt (address pos) := by
  -- The region is handed back as it was.
  refine onRegion_attempt pos fun worked fits => ?_
  simp only [except_bind_eq_ok, except_pure_eq_ok, Prod.mk.injEq] at worked
  obtain ⟨_, -, -, rfl⟩ := worked
  exact fits

/-- Bytes are written at the cursor. -/
theorem write_attempt (bytes : List UInt8) (pos : Pos) : Attempt (write bytes pos) :=
  onRegion_attempt pos fun wrote fits => fits.write wrote

/-- The cursor is moved on. -/
theorem align_attempt (multiple : Nat) (pos : Pos) : Attempt (align multiple pos) := by
  -- The region is the one that aligning gives.
  refine onRegion_attempt pos fun worked fits => ?_
  simp only [except_bind_eq_ok, except_pure_eq_ok, Prod.mk.injEq, true_and] at worked
  obtain ⟨_, aligned, rfl⟩ := worked
  exact fits.align aligned

/-- An attempt with a question about the bank that it leaves. -/
theorem Attempt.thenAsk {α β : Type} {m : RomStep α} (attempt : Attempt m) (answer : α → Bank → β) :
    Attempt (m >>= fun a => currentBank >>= fun bank => pure (answer a bank)) := by
  -- The question is put only after an attempt that succeeds, and changes nothing.
  intro rom
  obtain ⟨e, failed⟩ | ⟨a, bank, step, done⟩ := attempt rom
  · refine .inl ⟨e, ?_⟩
    show EStateM.bind _ _ rom = _
    rw [EStateM.bind, failed]
  · -- The bank that is asked for is there.
    let after : Rom :=
      { rom.entered with banks := Entries.insert bank.number bank rom.entered.banks }
    have there : after.entered = after := by
      refine entered_of_isSome ?_
      simp only [after, Entries.get?_insert]
      split
      · rfl
      · rw [current_entered]
        exact isSome_entered rom
    refine .inr ⟨answer a (after.bankAt after.current), bank, step, ?_⟩
    show EStateM.bind _ _ rom = _
    rw [EStateM.bind, done]
    show (currentBank >>= _) after = _
    rw [bind_currentBank, there]
    rfl

/-- Bytes are reserved at the cursor. -/
theorem reserve_attempt (size : Nat) (pos : Pos) : Attempt (reserve size pos) := by
  -- The place is claimed in the region, and the slot is read off the bank.
  refine Attempt.thenAsk (m := onRegion pos _) (onRegion_attempt pos fun worked fits => ?_)
    fun (place : Nat × UInt16) bank =>
      ((⟨bank.number, bank.closed.length, place.1⟩ : Slot), place.2)
  simp only [except_bind_eq_ok, except_pure_eq_ok, Prod.mk.injEq] at worked
  obtain ⟨_, -, ⟨_, _⟩, reserved, -, rfl⟩ := worked
  exact fits.reserve reserved

/-- The open region is closed only if it overlaps no other one, and all regions fit into the bank. -/
theorem closeRegion_eq_ok (ran : closeRegion pos rom = .ok () rom') :
    ∃ region bank, (rom.bankAt rom.current).current = some region ∧
      (rom.bankAt rom.current).overlapping region.org region.stop = none ∧
      bank = { rom.bankAt rom.current with
        closed := (rom.bankAt rom.current).closed ++ [region], current := none } ∧
      (∀ size ∈ bank.maxsize, bank.used ≤ size) ∧ setBank bank rom.entered = .ok () rom' := by
  -- Of the ways through the two checks only one does not fail.
  rw [closeRegion, bind_currentBank] at ran
  -- There must be an open region.
  cases isOpen : (rom.bankAt rom.current).current with
  | none =>
    rw [isOpen] at ran
    cases ran
  | some region =>
    simp only [isOpen, bind_eq_ok] at ran
    obtain ⟨_, after, put, ran⟩ := ran
    -- There must be no other region in its way.
    cases overlaps : (rom.bankAt rom.current).overlapping region.org region.stop with
    | some other => simp [overlaps] at ran
    | none =>
      -- What is left to do only asks whether the regions fit.
      cases limit : (rom.bankAt rom.current).maxsize with
      | none =>
        simp only [overlaps, limit, pure_eq_ok, true_and] at ran
        subst ran
        refine ⟨region, _, rfl, overlaps, rfl, fun size same => ?_, put⟩
        cases limit.symm.trans same
      | some maxsize =>
        -- There must be room in the bank.
        simp only [overlaps, limit] at ran
        split at ran
        · simp at ran
        · rename_i fits
          rw [pure_eq_ok] at ran
          obtain ⟨-, rfl⟩ := ran
          refine ⟨region, _, rfl, overlaps, rfl, fun size same => ?_, put⟩
          cases limit.symm.trans same
          simpa [limit] using fits

/-- No region is open but in banks of the given numbers. -/
def OpenOnly (rom : Rom) (numbers : List Nat) : Prop :=
  ∀ number, (rom.bankAt number).current.isSome = true → number ∈ numbers

/-- Closing the region of a bank leaves those of others. -/
theorem closeRegion_moved (keyed : rom.Keyed) (ran : closeRegion pos rom = .ok () rom') :
    rom.Moved rom' ∧ ∀ numbers, rom.OpenOnly (rom.current :: numbers) → rom'.OpenOnly numbers := by
  -- The bank takes a step to have nothing open, and the others stay.
  obtain ⟨region, bank, isOpen, free, made, -, put⟩ := closeRegion_eq_ok ran
  have step : (rom.bankAt rom.current).Step bank := made ▸ .closed isOpen free
  have shut : bank.current = none := by rw [made]
  refine ⟨setBank_moved keyed step put, fun numbers only number isOpen => ?_⟩
  have here : bank.number = rom.current := step.number.trans (keyed.number_bankAt _)
  simp only [setBank, modify_eq_ok] at put
  subst put
  by_cases same : rom.current = number
  · simp [bankAt, Entries.get?_insert, here, same, shut] at isOpen
  · -- Another bank is the one that it was.
    have stays : (rom.entered.bankAt number).current.isSome = true := by
      simpa [bankAt, Entries.get?_insert, here, same] using isOpen
    rw [bankAt_entered] at stays
    exact (List.mem_cons.1 (only number stays)).resolve_left (Ne.symm same)

/-- Closing bank after bank leaves none of them open. -/
theorem closeEach_moved (separate : rom.Separate) {numbers : List Nat}
    (only : rom.OpenOnly numbers) (ran : closeEach pos numbers rom = .ok () rom') :
    rom.Moved rom' ∧ rom'.OpenOnly [] := by
  -- By induction on the banks, each of which is closed in turn.
  induction numbers generalizing rom with
  | nil =>
    simp only [closeEach, pure_eq_ok, true_and] at ran
    exact ran ▸ ⟨.refl, only⟩
  | cons number others ih =>
    simp only [closeEach, bind_eq_ok, modify_eq_ok] at ran
    obtain ⟨_, _, rfl, _, middle, closed, ran⟩ := ran
    have selected : rom.Moves { rom with current := number } := .idle rfl
    obtain ⟨moved, left⟩ := closeRegion_moved (selected.separate separate).keyed closed
    obtain ⟨moved', shut⟩ := ih (moved.separate (selected.separate separate)) (left others only) ran
    exact ⟨(Relation.ReflTransGen.head selected moved).trans moved', shut⟩

/-- Closing whatever is open leaves nothing open. -/
theorem closeAll_moved (separate : rom.Separate) (ran : closeAll pos rom = .ok () rom') :
    rom.Moved rom' ∧ rom'.OpenOnly [] := by
  -- The banks with an open region are listed and closed one after another.
  simp only [closeAll, bind_eq_ok, get_eq_ok] at ran
  obtain ⟨_, _, ⟨rfl, rfl⟩, ran⟩ := ran
  refine closeEach_moved separate (fun number isOpen => ?_) ran
  -- A bank with an open region is there, and passes the test.
  cases found : Entries.get? number rom.banks with
  | none => simp [bankAt, found] at isOpen
  | some bank =>
    rw [bankAt, found, Option.getD_some] at isOpen
    exact List.mem_map.2 ⟨(number, bank),
      List.mem_filter.2 ⟨Entries.mem_of_get? found, isOpen⟩, rfl⟩

/-- Filling in bytes is a step on the bank they are for, if there is one. -/
theorem writeAt_moved (keyed : rom.Keyed) {slot : Slot} {bytes : List UInt8}
    (ran : writeAt slot bytes rom = .ok () rom') : rom.Moved rom' := by
  -- The bytes go to a bank that is there, or nowhere.
  simp only [writeAt, bind_eq_ok, get_eq_ok] at ran
  obtain ⟨_, _, ⟨rfl, rfl⟩, ran⟩ := ran
  cases there : Entries.get? slot.bank rom.banks with
  | none =>
    simp only [there, pure_eq_ok, true_and] at ran
    exact ran ▸ .refl
  | some bank =>
    simp only [there, setBank, modify_eq_ok] at ran
    subst ran
    have same : rom.bankAt slot.bank = bank := by simp [bankAt, there]
    refine .single (.acts slot.bank (.written slot.region slot.offset bytes) ?_)
    rw [same, Bank.number_writeAt, keyed.number (Entries.mem_of_get? there)]

/-! ### Every sequence of requests -/

/-- The banks that a sequence of requests leads to, and the slots that were returned, each with the
number of bytes reserved. Requests may fail, but for those to close; a slot takes no more than what was
reserved. -/
inductive Reached : Rom → List (Slot × Nat) → Prop
  | new : Reached {} []
  | select {rom rom' : Rom} {slots : List (Slot × Nat)} {number : Nat} {maxsize : Option Nat}
    (before : Reached rom slots) (ran : select number maxsize rom = .ok () rom') : Reached rom' slots
  | setBanksize {rom rom' : Rom} {slots : List (Slot × Nat)} {size : Nat}
    (before : Reached rom slots) (ran : setBanksize size rom = .ok () rom') : Reached rom' slots
  | setPadding {rom rom' : Rom} {slots : List (Slot × Nat)} {padding : Padding}
    (before : Reached rom slots) (ran : setPadding padding rom = .ok () rom') : Reached rom' slots
  | openRegion {rom rom' : Rom} {slots : List (Slot × Nat)} {org : Nat} {maxsize : Option Nat}
    {pos : Pos} (before : Reached rom slots)
    (leaves : Leaves (openRegion org maxsize pos) rom rom') : Reached rom' slots
  | closeRegion {rom rom' : Rom} {slots : List (Slot × Nat)} {pos : Pos}
    (before : Reached rom slots) (ran : closeRegion pos rom = .ok () rom') : Reached rom' slots
  | closeAll {rom rom' : Rom} {slots : List (Slot × Nat)} {pos : Pos}
    (before : Reached rom slots) (ran : closeAll pos rom = .ok () rom') : Reached rom' slots
  | reserve {rom rom' : Rom} {slots : List (Slot × Nat)} {size : Nat} {pos : Pos} {slot : Slot}
    {address : UInt16} (before : Reached rom slots)
    (ran : reserve size pos rom = .ok (slot, address) rom') : Reached rom' ((slot, size) :: slots)
  | refused {rom rom' : Rom} {slots : List (Slot × Nat)} {size : Nat} {pos : Pos} {e : Error}
    (before : Reached rom slots) (ran : reserve size pos rom = .error e rom') : Reached rom' slots
  | write {rom rom' : Rom} {slots : List (Slot × Nat)} {bytes : List UInt8} {pos : Pos}
    (before : Reached rom slots) (leaves : Leaves (write bytes pos) rom rom') : Reached rom' slots
  | align {rom rom' : Rom} {slots : List (Slot × Nat)} {multiple : Nat} {pos : Pos}
    (before : Reached rom slots) (leaves : Leaves (align multiple pos) rom rom') :
    Reached rom' slots
  | writeAt {rom rom' : Rom} {slots : List (Slot × Nat)} {slot : Slot} {size : Nat}
    {bytes : List UInt8} (before : Reached rom slots) (returned : (slot, size) ∈ slots)
    (short : bytes.length ≤ size) (ran : writeAt slot bytes rom = .ok () rom') : Reached rom' slots

/-- Every sequence of requests keeps the regions apart. -/
theorem Reached.separate {slots : List (Slot × Nat)} (reached : Reached rom slots) :
    rom.Separate := by
  -- Each request is a chain of steps, and every step keeps the regions apart.
  induction reached with
  | new => exact separate_empty
  | select _ ran ih => exact (select_moved ih.keyed ran).separate ih
  | @setBanksize before after _ _ _ ran ih =>
    simp only [Rom.setBanksize, modify_eq_ok] at ran
    have moves : before.Moves after := .idle (ran ▸ rfl)
    exact moves.separate ih
  | setPadding _ ran ih => exact (setPadding_moved ih.keyed ran).separate ih
  | @openRegion _ _ _ org maxsize pos _ leaves ih =>
    exact ((openRegion_attempt org maxsize pos).moved ih.keyed leaves).separate ih
  | closeRegion _ ran ih => exact (closeRegion_moved ih.keyed ran).1.separate ih
  | closeAll _ ran ih => exact (closeAll_moved ih ran).1.separate ih
  | @reserve _ _ _ size pos _ _ _ ran ih =>
    exact ((reserve_attempt size pos).moved ih.keyed (.inl ⟨_, ran⟩)).separate ih
  | @refused _ _ _ size pos _ _ ran ih =>
    exact ((reserve_attempt size pos).moved ih.keyed (.inr ⟨_, ran⟩)).separate ih
  | @write _ _ _ bytes pos _ leaves ih =>
    exact ((write_attempt bytes pos).moved ih.keyed leaves).separate ih
  | @align _ _ _ multiple pos _ leaves ih =>
    exact ((align_attempt multiple pos).moved ih.keyed leaves).separate ih
  | writeAt _ _ _ ran ih => exact (writeAt_moved ih.keyed ran).separate ih

/-- No second region is opened in a bank. -/
theorem openRegion_error_of_isSome (isOpen : (rom.bankAt rom.current).current.isSome = true)
    (org : Nat) (maxsize : Option Nat) (pos : Pos) :
    openRegion org maxsize pos rom =
      .error (.regionAlreadyOpen pos (rom.bankAt rom.current).number) rom.entered := by
  -- The open region is looked for before anything is opened.
  rw [openRegion, bind_currentBank]
  simp only [isOpen, if_true]
  rfl

/-- Where nothing is open, all regions of a bank are closed ones. -/
theorem OpenOnly.regions_eq (shut : rom.OpenOnly []) {number : Nat} {bank : Bank}
    (found : Entries.get? number rom.banks = some bank) : bank.regions = bank.closed := by
  -- The bank is in the image, so that it is one of those without an open region.
  have unopened : bank.current = none := by
    by_contra isOpen
    have here : (rom.bankAt number).current.isSome = true := by
      simpa [bankAt, found, Option.isSome_iff_ne_none] using isOpen
    cases shut number here
  rw [Bank.regions, unopened, Option.toList_none, List.append_nil]

/-- At all times a bank has at most one open region, every region lies inside the address space and
holds no more than its size, and regions that are closed are disjoint. A request that fails changes no
region, and once everything is closed all regions are disjoint. -/
theorem regions_kept_apart {slots : List (Slot × Nat)} (reached : Reached rom slots) :
    (∀ number bank, Entries.get? number rom.banks = some bank →
      bank.regions.length ≤ bank.closed.length + 1 ∧
      (∀ region ∈ bank.regions, region.org + max region.extent 1 ≤ addressSpace ∧
        ∀ maxsize ∈ region.maxsize, region.length ≤ maxsize) ∧
      (bank.closed.map fun region =>
        Set.Ico region.org (region.org + max region.extent 1)).Pairwise Disjoint) ∧
    ((rom.bankAt rom.current).current.isSome = true → ∀ org maxsize pos, ∃ e rom',
      openRegion org maxsize pos rom = .error e rom') ∧
    (∀ e rom', (∃ org maxsize pos, openRegion org maxsize pos rom = .error e rom') ∨
        (∃ size pos, reserve size pos rom = .error e rom') ∨
        (∃ bytes pos, write bytes pos rom = .error e rom') ∨
        (∃ multiple pos, align multiple pos rom = .error e rom') →
      ∀ number, rom'.contents number = rom.contents number) ∧
    ∀ pos rom', closeAll pos rom = .ok () rom' →
      ∀ number bank, Entries.get? number rom'.banks = some bank →
        bank.current = none ∧ (bank.regions.map fun region =>
          Set.Ico region.org (region.org + max region.extent 1)).Pairwise Disjoint := by
  -- What is reached is separate; the parts are read off that and off the attempts.
  have separate := reached.separate
  refine ⟨fun number bank found => ?_, fun isOpen org maxsize pos => ?_, ?_, ?_⟩
  · obtain ⟨fits, disjoint⟩ := separate.apart found
    refine ⟨?_, fun region inside => ⟨(fits region inside).inside, (fits region inside).size⟩,
      disjoint⟩
    cases isOpen : bank.current <;> simp [Bank.regions, isOpen]
  · exact ⟨_, _, openRegion_error_of_isSome isOpen org maxsize pos⟩
  · rintro e rom' (⟨org, maxsize, pos, ran⟩ | ⟨size, pos, ran⟩ | ⟨bytes, pos, ran⟩ |
      ⟨multiple, pos, ran⟩)
    · exact (openRegion_attempt org maxsize pos).contents_of_error ran
    · exact (reserve_attempt size pos).contents_of_error ran
    · exact (write_attempt bytes pos).contents_of_error ran
    · exact (align_attempt multiple pos).contents_of_error ran
  · intro pos rom' ran number bank found
    obtain ⟨moved, shut⟩ := closeAll_moved separate ran
    have all := shut.regions_eq found
    refine ⟨?_, all ▸ ((moved.separate separate).apart found).disjoint⟩
    simpa [Bank.regions] using all

/-- A region without a size that has grown and is closed, and one with a size behind it that is
open. -/
def oneOpen : Rom where
  banks := [(2, {
    number := 2, maxsize := some 64
    closed := [⟨0x8000, none, .default, [some 1, some 2, some 3]⟩]
    current := some ⟨0x8003, some 4, .default, [some 9, none]⟩ })]
  current := 2

/-- The region that was open is closed. -/
def noneOpen : Rom where
  banks := [(2, {
    number := 2, maxsize := some 64
    closed := [⟨0x8000, none, .default, [some 1, some 2, some 3]⟩,
      ⟨0x8003, some 4, .default, [some 9, none]⟩] })]
  current := 2

/-- Requests lead there, one of which fails for want of room. -/
theorem oneOpen_reached : Reached oneOpen [(⟨2, 1, 0⟩, 2)] := by
  -- The requests are made one after another, each with the image it leads to.
  have selected := Reached.new.select (show select 2 (some 64) {} = _ from rfl)
  have opened := selected.openRegion (.inl ⟨(), show openRegion 0x8000 none {} _ = _ from rfl⟩)
  have grown := opened.write (.inl ⟨0, show write [1, 2, 3] {} _ = _ from rfl⟩)
  have closed := grown.closeRegion (show closeRegion {} _ = _ from rfl)
  have second := closed.openRegion
    (.inl ⟨(), show openRegion 0x8003 (some 4) {} _ = _ from rfl⟩)
  have reserved := second.reserve (show reserve 2 {} _ = _ from rfl)
  have refused := reserved.write
    (.inr ⟨.regionOverflow {} 0x8003 4, show write [4, 5, 6] {} _ = _ from rfl⟩)
  exact refused.writeAt (.head _) (by decide) (show writeAt ⟨2, 1, 0⟩ [9] _ = _ from rfl)

/-- Once the second region is closed too, the two are disjoint. -/
theorem oneOpen_kept_apart :
    Reached oneOpen [(⟨2, 1, 0⟩, 2)] ∧ closeAll {} oneOpen = .ok () noneOpen ∧
      ([Set.Ico 0x8000 0x8003, Set.Ico 0x8003 0x8007] : List (Set Nat)).Pairwise Disjoint :=
  ⟨oneOpen_reached, rfl,
    ((regions_kept_apart oneOpen_reached).2.2.2 {} noneOpen rfl 2 _ rfl).2⟩

end CrossAsm.Rom
