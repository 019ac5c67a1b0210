import CrossAsm.Proofs.Memory.Separation

/-! The size of a bank as a limit. The regions of a bank are counted against its size when one of them
is closed, and by no other request, though the size may be set at any time. A bank with no open region
holds more than its size if and only if it did already when it was given that size. -/

namespace CrossAsm

/-! ### What a region and a bank take -/

/-- What regions take does not depend on what is written in them. -/
theorem Buffer.extents_blanked (regions : List Buffer) :
    (regions.map Buffer.blanked).map Buffer.extent = regions.map Buffer.extent := by
  -- Blanking a region leaves how many bytes it has.
  simp [extent, blanked, Buffer.length]

namespace Bank

variable {bank old middle new : Bank}

/-- Regions that differ in their bytes only take the same. -/
theorem used_of_blanked (same : new.regions.map Buffer.blanked = old.regions.map Buffer.blanked) :
    new.used = old.used := by
  -- What is used is the sum of the extents.
  rw [used, used, ← Buffer.extents_blanked, same, Buffer.extents_blanked]

/-- Regions that are closed stay, in their order and but for their bytes, and more may be closed behind
them. -/
def KeepsClosed (old new : Bank) : Prop :=
  old.closed.map Buffer.blanked <+: new.closed.map Buffer.blanked

/-- No request takes a closed region away. -/
theorem Step.keepsClosed (step : old.Step new) : old.KeepsClosed new := by
  -- By cases on the request; only closing and filling in touch the closed regions.
  cases step with
  | resized | worked | opened => exact List.prefix_rfl
  | closed => exact ⟨_, (List.map_append ..).symm⟩
  | written index offset bytes =>
    rw [KeepsClosed, (old.blanked_writeAt index offset bytes).1]

/-- A bank without an open region takes no more than one with the same regions closed. -/
theorem KeepsClosed.used_le (keeps : old.KeepsClosed new) (shut : old.current = none) :
    old.used ≤ new.used := by
  -- What is closed later, or open there, only adds to what is taken.
  obtain ⟨more, same⟩ := keeps
  simp only [used, regions, shut, total_eq_sum, Option.toList_none, List.append_nil,
    List.map_append, List.sum_append]
  rw [← Buffer.extents_blanked old.closed, ← Buffer.extents_blanked new.closed, ← same,
    List.map_append, List.sum_append]
  omega

/-- A bank that keeps its size and what it takes, and whose regions are counted if one is closed. -/
structure Settles (old new : Bank) : Prop where
  /-- The size stays. -/
  maxsize : new.maxsize = old.maxsize
  /-- The regions take what they took. -/
  used : new.used = old.used
  /-- A region is open if one was, or else the regions were found to fit. -/
  counted : new.current.isSome = old.current.isSome ∨ ∀ size ∈ new.maxsize, new.used ≤ size

/-- A bank may stay as it is. -/
theorem Settles.refl (bank : Bank) : bank.Settles bank :=
  ⟨rfl, rfl, .inl rfl⟩

/-- One change after another. -/
theorem Settles.trans (early : old.Settles middle) (late : middle.Settles new) :
    old.Settles new := by
  -- The later check counts if there was one, and the earlier one otherwise.
  refine ⟨late.maxsize.trans early.maxsize, late.used.trans early.used, ?_⟩
  rcases late.counted with same | fits
  · rcases early.counted with same' | fits
    · exact .inl (same.trans same')
    · -- What was found to fit before is as much, and counts against the same size.
      right
      rw [late.maxsize, late.used]
      exact fits
  · exact .inr fits

/-- What a request does to a bank, unless it sets the bank's size. -/
inductive Handled (old new : Bank) : Prop
  | settled (settles : old.Settles new)
  | worked (isOpen : new.current.isSome = true)
  | unused (after : new.used = 0)

/-- A bank without an open region that takes more than its size. -/
structure Overfull (bank : Bank) (size : Nat) : Prop where
  /-- No region is open. -/
  shut : bank.current = none
  /-- The bank has the size. -/
  sized : bank.maxsize = some size
  /-- The regions take more. -/
  more : size < bank.used

/-- A bank is overfull only if it was before. -/
theorem Handled.overfull (handled : old.Handled new) {size : Nat} (overfull : new.Overfull size) :
    old.Overfull size := by
  obtain ⟨shut, sized, more⟩ := overfull
  -- Neither an open region nor one that was just counted leaves a bank overfull.
  cases handled with
  | settled settles =>
    rcases settles.counted with same | fits
    · refine ⟨?_, settles.maxsize.symm.trans sized, settles.used ▸ more⟩
      simpa [shut] using same.symm
    · have := fits size (Option.mem_def.2 sized)
      omega
  | worked isOpen =>
    rw [shut] at isOpen
    cases isOpen
  | unused after => omega

end Bank

/-! ### One request -/

namespace Rom

variable {rom rom' : Rom} {pos : Pos} {number : Nat}

/-- No step on the banks takes a closed region away. -/
theorem Moves.keepsClosed (moves : rom.Moves rom') (number : Nat) :
    (rom.bankAt number).KeepsClosed (rom'.bankAt number) := by
  -- A bank that is not there has none, whatever size it would be made with.
  have same : Entries.get? number rom'.banks = Entries.get? number rom.banks →
      (rom.bankAt number).KeepsClosed (rom'.bankAt number) := by
    intro same
    unfold Bank.KeepsClosed bankAt
    rw [same]
    cases Entries.get? number rom.banks <;> exact List.prefix_rfl
  cases moves with
  | idle banks => exact same (by rw [banks])
  | @acts number' bank step banks =>
    by_cases here : number' = number
    · subst here
      have there : rom'.bankAt number' = bank := by simp [bankAt, banks, Entries.get?_insert]
      exact there ▸ step.keepsClosed
    · exact same (by rw [banks, Entries.get?_insert, if_neg here])

/-- Step after step, no closed region is taken away. -/
theorem Moved.keepsClosed (moved : rom.Moved rom') (number : Nat) :
    (rom.bankAt number).KeepsClosed (rom'.bankAt number) := by
  -- By induction on the steps: a list that begins one that begins a third begins that.
  induction moved with
  | refl => exact List.prefix_rfl
  | tail _ moves ih => exact ih.trans (moves.keepsClosed number)

/-- The bank of a number with another one put in its place. -/
theorem bankAt_setBank {bank : Bank} (ran : setBank bank rom = .ok () rom') (number : Nat) :
    rom'.bankAt number = if bank.number = number then bank else rom.bankAt number := by
  -- The bank is entered under its number, and all others are found as before.
  simp only [setBank, modify_eq_ok] at ran
  subst ran
  simp only [bankAt, Entries.get?_insert]
  split <;> rfl

/-- The banks with something done to the current one. -/
theorem bankAt_setCurrent (keyed : rom.Keyed) {bank : Bank}
    (ran : setBank bank rom.entered = .ok () rom')
    (same : bank.number = (rom.bankAt rom.current).number) (number : Nat) :
    rom'.bankAt number = if rom.current = number then bank else rom.bankAt number := by
  -- The bank is entered under the number of the current one.
  rw [bankAt_setBank ran, same, keyed.number_bankAt, bankAt_entered]

/-- A change to the current bank leaves all others as they are. -/
theorem handled_of_setBank (keyed : rom.Keyed) {bank : Bank}
    (ran : setBank bank rom.entered = .ok () rom')
    (same : bank.number = (rom.bankAt rom.current).number)
    (handled : (rom.bankAt rom.current).Handled bank) (number : Nat) :
    (rom.bankAt number).Handled (rom'.bankAt number) := by
  -- The bank that is asked for is the current one or another one.
  rw [bankAt_setCurrent keyed ran same]
  split
  · rename_i here
    exact here ▸ handled
  · exact .settled (.refl _)

/-- A fill of the open region takes no space. -/
theorem setPadding_handled (keyed : rom.Keyed) {padding : Padding}
    (ran : setPadding padding rom = .ok () rom') (number : Nat) :
    (rom.bankAt number).Handled (rom'.bankAt number) := by
  -- Only an open region of the current bank takes the new fill.
  simp only [setPadding, bind_eq_ok, modify_eq_ok, get_eq_ok] at ran
  obtain ⟨_, _, rfl, _, _, ⟨rfl, rfl⟩, ran⟩ := ran
  cases found : Entries.get? rom.current rom.banks with
  | none =>
    simp only [found, pure_eq_ok, true_and] at ran
    subst ran
    exact .settled (.refl _)
  | some bank =>
    simp only [found] at ran
    have there : rom.bankAt rom.current = bank := by simp [bankAt, found]
    rw [bankAt_setBank ran, keyed.number (Entries.mem_of_get? found)]
    split
    · rename_i here
      rw [← here, there]
      -- The open region keeps its size and its bytes.
      refine .settled ⟨rfl, ?_, .inl (Option.isSome_map ..)⟩
      simp only [Bank.used, Bank.regions]
      cases bank.current <;> simp [Buffer.extent, Buffer.length]
    · exact .settled (.refl _)

/-- A region that is opened is not counted yet. -/
theorem openRegion_handled (keyed : rom.Keyed) {org : Nat} {maxsize : Option Nat}
    (ran : openRegion org maxsize pos rom = .ok () rom') (number : Nat) :
    (rom.bankAt number).Handled (rom'.bankAt number) := by
  rw [openRegion, bind_currentBank] at ran
  simp only [bind_eq_ok, get_eq_ok] at ran
  obtain ⟨_, _, ⟨rfl, rfl⟩, ran⟩ := ran
  -- Where one of the checks fails, nothing is opened.
  split at ran
  · simp at ran
  · split at ran
    · simp at ran
    · cases overlaps : (rom.bankAt rom.current).overlapping org
          (saturatingAdd org (max (maxsize.getD 1) 1)) with
      | some other => simp [overlaps] at ran
      | none =>
        simp only [overlaps] at ran
        exact handled_of_setBank keyed ran rfl (.worked rfl) number

/-- Work on the open region leaves it open. -/
theorem onRegion_handled (keyed : rom.Keyed) {α : Type} {f : Buffer → Except Error (α × Buffer)}
    {a : α} (ran : onRegion pos f rom = .ok a rom') (number : Nat) :
    (rom.bankAt number).Handled (rom'.bankAt number) := by
  -- The open region is replaced by what the work made of it.
  rw [onRegion, bind_currentBank] at ran
  cases isOpen : (rom.bankAt rom.current).current with
  | none => simp [isOpen] at ran
  | some region =>
    cases worked : f region with
    | error e => simp [isOpen, worked] at ran
    | ok result =>
      simp only [isOpen, worked, bind_eq_ok, pure_eq_ok] at ran
      obtain ⟨_, _, put, -, rfl⟩ := ran
      exact handled_of_setBank keyed put rfl (.worked rfl) number

/-- Reserving is work on the open region. -/
theorem reserve_handled (keyed : rom.Keyed) {size : Nat} {place : Slot × UInt16}
    (ran : reserve size pos rom = .ok place rom') (number : Nat) :
    (rom.bankAt number).Handled (rom'.bankAt number) := by
  -- The place is claimed in the region, and then the slot is made out.
  simp only [reserve, bind_eq_ok, pure_eq_ok] at ran
  obtain ⟨_, middle, worked, bank, _, asked, -, rfl⟩ := ran
  -- The slot is read off the bank, which is there.
  rw [currentBank_eq] at asked
  cases asked
  rw [bankAt_entered]
  exact onRegion_handled keyed worked number

/-- A region is closed only if the regions of its bank are found to fit. -/
theorem closeRegion_settles (keyed : rom.Keyed) (ran : closeRegion pos rom = .ok () rom')
    (number : Nat) : (rom.bankAt number).Settles (rom'.bankAt number) := by
  -- The check that the regions fit is the last thing that is done.
  obtain ⟨region, bank, isOpen, -, made, fits, put⟩ := closeRegion_eq_ok ran
  rw [bankAt_setCurrent keyed put (by rw [made])]
  split
  · rename_i here
    rw [← here]
    -- The regions are the same, the one that was open now being closed.
    refine ⟨by rw [made], ?_, .inr fits⟩
    simp [made, Bank.used, Bank.regions, isOpen]
  · exact .refl _

/-- Closing bank after bank counts the regions of each. -/
theorem closeEach_settles (separate : rom.Separate) {numbers : List Nat}
    (ran : closeEach pos numbers rom = .ok () rom') (number : Nat) :
    (rom.bankAt number).Settles (rom'.bankAt number) := by
  -- By induction on the banks; each closing leaves a separate image for the next one.
  induction numbers generalizing rom with
  | nil =>
    simp only [closeEach, pure_eq_ok, true_and] at ran
    exact ran ▸ .refl _
  | cons first others ih =>
    simp only [closeEach, bind_eq_ok, modify_eq_ok] at ran
    obtain ⟨_, _, rfl, _, middle, closed, ran⟩ := ran
    have selected : rom.Moves { rom with current := first } := .idle rfl
    have apart := selected.separate separate
    have next := (closeRegion_moved apart.keyed closed).1.separate apart
    exact (closeRegion_settles apart.keyed closed number).trans (ih next ran)

/-- Bytes that are filled in take no space. -/
theorem writeAt_handled (keyed : rom.Keyed) {slot : Slot} {bytes : List UInt8}
    (ran : writeAt slot bytes rom = .ok () rom') (number : Nat) :
    (rom.bankAt number).Handled (rom'.bankAt number) := by
  -- The bytes go to a bank that is there, or nowhere.
  simp only [writeAt, bind_eq_ok, get_eq_ok] at ran
  obtain ⟨_, _, ⟨rfl, rfl⟩, ran⟩ := ran
  cases there : Entries.get? slot.bank rom.banks with
  | none =>
    simp only [there, pure_eq_ok, true_and] at ran
    exact ran ▸ .settled (.refl _)
  | some bank =>
    simp only [there] at ran
    have same : rom.bankAt slot.bank = bank := by simp [bankAt, there]
    rw [bankAt_setBank ran, Bank.number_writeAt, keyed.number (Entries.mem_of_get? there)]
    split
    · rename_i here
      rw [← here, same]
      -- The regions are the same but for their bytes, and the open one is in its place.
      refine .settled ⟨Bank.maxsize_writeAt .., Bank.used_of_blanked (bank.blanked_writeAt ..).2,
        .inl ?_⟩
      unfold Bank.writeAt
      split
      · rfl
      · exact Option.isSome_map ..
    · exact .settled (.refl _)

/-- Selecting a bank takes nothing, but may set the size of the bank that is selected. -/
theorem select_handled (keyed : rom.Keyed) {key : Nat} {maxsize : Option Nat}
    (ran : select key maxsize rom = .ok () rom') (number : Nat) :
    (rom.bankAt number).Handled (rom'.bankAt number) ∨
      ∃ size, key = number ∧ maxsize = some size ∧
        rom'.bankAt number = { rom.bankAt number with maxsize := some size } := by
  -- The bank is made if it was not there, and takes the size if one is given.
  simp only [select, bind_eq_ok, modify_eq_ok] at ran
  obtain ⟨_, _, rfl, bank, middle, asked, ran⟩ := ran
  rw [currentBank_eq] at asked
  cases asked
  have numbered : Keyed { rom with current := key } := ⟨keyed.number, keyed.distinct⟩
  -- Without a size the bank is made if it was not there, and else nothing happens.
  cases maxsize with
  | none =>
    simp only [Option.isSome_none, Bool.false_eq_true, if_false, pure_eq_ok] at ran
    rw [← ran.2, bankAt_entered]
    exact .inl (.settled (.refl _))
  | some size =>
    rw [bankAt_setCurrent numbered ran rfl]
    split
    · rename_i here
      exact .inr ⟨size, here, rfl, by subst here; rfl⟩
    · exact .inl (.settled (.refl _))

/-- A size for banks made later is no size for a bank that is there. -/
theorem setBanksize_handled {size : Nat} (ran : setBanksize size rom = .ok () rom')
    (number : Nat) : (rom.bankAt number).Handled (rom'.bankAt number) := by
  rw [setBanksize, modify_eq_ok] at ran
  subst ran
  -- A bank that is not there yet would have the new size, but takes nothing.
  cases found : Entries.get? number rom.banks with
  | some bank =>
    simp only [bankAt, found]
    exact .settled (.refl _)
  | none =>
    simp only [bankAt, found]
    exact .unused rfl

/-! ### Requests one after another -/

/-- Space for a number of bytes is there from the place of a slot on. -/
def HasRoom (rom : Rom) (slot : Slot) (size : Nat) : Prop :=
  ∃ region, rom.region? slot.bank slot.region = some region ∧ slot.offset + size ≤ region.length

namespace Request

variable {request : Request}

/-- Bytes may be filled into a bank only where there is space for them. -/
def Fits (rom : Rom) : Request → Prop
  | .writeAt slot bytes =>
    Entries.get? slot.bank rom.banks = none ∨ rom.HasRoom slot bytes.length
  | _ => True

/-- A request that succeeds is a chain of steps on the banks. -/
theorem moved (separate : rom.Separate) (ran : request.step rom = .ok () rom') :
    rom.Moved rom' := by
  -- One case for each request, of which some have an answer that is left aside.
  cases request with
  -- Selecting a bank has a lemma of its own, and so have the requests that work on one.
  | select => exact select_moved separate.keyed ran
  | setBanksize =>
    simp only [step, Rom.setBanksize, modify_eq_ok] at ran
    exact .single (.idle (ran ▸ rfl))
  | setPadding => exact setPadding_moved separate.keyed ran
  | openRegion org maxsize pos =>
    exact (openRegion_attempt org maxsize pos).moved separate.keyed (.inl ⟨(), ran⟩)
  | closeRegion => exact (closeRegion_moved separate.keyed ran).1
  | closeAll => exact (closeAll_moved separate ran).1
  | address pos =>
    -- What comes behind the request only drops its answer.
    simp only [step, bind_eq_ok, pure_eq_ok] at ran
    obtain ⟨a, _, ran, -, rfl⟩ := ran
    exact (address_attempt pos).moved separate.keyed (.inl ⟨a, ran⟩)
  | reserve size pos =>
    simp only [step, bind_eq_ok, pure_eq_ok] at ran
    obtain ⟨place, _, ran, -, rfl⟩ := ran
    exact (reserve_attempt size pos).moved separate.keyed (.inl ⟨place, ran⟩)
  | write bytes pos =>
    simp only [step, bind_eq_ok, pure_eq_ok] at ran
    obtain ⟨offset, _, ran, -, rfl⟩ := ran
    exact (write_attempt bytes pos).moved separate.keyed (.inl ⟨offset, ran⟩)
  | align multiple pos =>
    exact (align_attempt multiple pos).moved separate.keyed (.inl ⟨(), ran⟩)
  | writeAt => exact writeAt_moved separate.keyed ran

/-- A request to select a bank may set its size, and no other one does. -/
theorem handled (separate : rom.Separate) (ran : request.step rom = .ok () rom') (number : Nat) :
    (rom.bankAt number).Handled (rom'.bankAt number) ∨
      ∃ size, request = .select number (some size) ∧
        rom'.bankAt number = { rom.bankAt number with maxsize := some size } := by
  -- Closing counts, working on a region leaves it open, and the others take nothing.
  cases request with
  | select =>
    -- Selecting may resize the bank.
    refine (select_handled separate.keyed ran number).imp_right ?_
    rintro ⟨size, rfl, rfl, resized⟩
    exact ⟨size, rfl, resized⟩
  | setBanksize => exact .inl (setBanksize_handled ran number)
  | setPadding => exact .inl (setPadding_handled separate.keyed ran number)
  | openRegion => exact .inl (openRegion_handled separate.keyed ran number)
  | closeRegion => exact .inl (.settled (closeRegion_settles separate.keyed ran number))
  | closeAll =>
    -- Closing all is closing one bank after another.
    simp only [step, Rom.closeAll, bind_eq_ok, get_eq_ok] at ran
    obtain ⟨_, _, ⟨rfl, rfl⟩, ran⟩ := ran
    exact .inl (.settled (closeEach_settles separate ran number))
  | reserve =>
    -- What comes behind the request only drops its answer.
    simp only [step, bind_eq_ok, pure_eq_ok] at ran
    obtain ⟨_, _, ran, -, rfl⟩ := ran
    exact .inl (reserve_handled separate.keyed ran number)
  | address | write =>
    simp only [step, bind_eq_ok, pure_eq_ok] at ran
    obtain ⟨_, _, ran, -, rfl⟩ := ran
    exact .inl (onRegion_handled separate.keyed ran number)
  | align => exact .inl (onRegion_handled separate.keyed ran number)
  | writeAt => exact .inl (writeAt_handled separate.keyed ran number)

end Request

/-- Requests one after another that all succeed. -/
inductive Performs : Rom → List Request → Rom → Prop
  | done (rom : Rom) : Performs rom [] rom
  | next {rom middle rom' : Rom} {request : Request} {others : List Request}
    (fits : request.Fits rom) (ran : request.step rom = .ok () middle)
    (rest : Performs middle others rom') : Performs rom (request :: others) rom'

namespace Performs

variable {middle : Rom} {requests before behind : List Request}

/-- The requests keep the regions apart. -/
theorem separate (performs : Performs rom requests rom') (separate : rom.Separate) :
    rom'.Separate := by
  -- By induction on the requests, each of which moves from banks kept apart to such.
  induction performs with
  | done => exact separate
  | next _ ran _ ih => exact ih ((Request.moved separate ran).separate separate)

/-- The requests take no closed region away. -/
theorem keepsClosed (performs : Performs rom requests rom') (separate : rom.Separate)
    (number : Nat) : (rom.bankAt number).KeepsClosed (rom'.bankAt number) := by
  -- By induction on the requests, each of which only moves the image on.
  induction performs with
  | done => exact List.prefix_rfl
  | next _ ran _ ih =>
    have moved := Request.moved separate ran
    exact (moved.keepsClosed number).trans (ih (moved.separate separate))

/-- The requests lead on from wherever the first of them lead to. -/
theorem behind_of_append (performs : Performs rom (before ++ behind) rom')
    (first : Performs rom before middle) : Performs middle behind rom' := by
  -- By induction on the first requests, each of which can only end in one way.
  induction first with
  | done => exact performs
  | next _ ran _ ih =>
    cases performs with
    | next _ ran' rest =>
      cases ran.symm.trans ran'
      exact ih rest

/-- A bank that is overfull behind the requests was so before them, or at one of them that gave it
its size. -/
theorem overfull {number size : Nat} (performs : Performs rom requests rom')
    (separate : rom.Separate) (overfull : (rom'.bankAt number).Overfull size) :
    (rom.bankAt number).Overfull size ∨
      ∃ before behind middle, requests = before ++ .select number (some size) :: behind ∧
        Performs rom before middle ∧ (middle.bankAt number).current = none ∧
        size < (middle.bankAt number).used := by
  -- By induction on the requests, from the last one back to where the bank became overfull.
  induction performs with
  | done => exact .inl overfull
  | @next rom after _ request others fits ran _ ih =>
    have next := (Request.moved separate ran).separate separate
    rcases ih next overfull with here | ⟨before, behind, middle, rfl, first, shut, more⟩
    · rcases Request.handled separate ran number with handled | ⟨other, rfl, resized⟩
      · exact .inl (handled.overfull here)
      · -- The bank was given its size by this very request.
        obtain ⟨shut, sized, more⟩ := here
        rw [resized] at shut sized more
        obtain rfl : other = size := Option.some.inj sized
        exact .inr ⟨[], others, rom, rfl, .done rom, shut, more⟩
    · exact .inr ⟨request :: before, behind, middle, rfl, .next fits ran first, shut, more⟩

end Performs

/-- The regions of a bank that has a size and no open region fit into it if and only if they did at
each request that gave the bank this size while none was open: there they are not counted. -/
theorem regions_fit_iff {requests : List Request} (performs : Performs {} requests rom)
    {number size : Nat} {bank : Bank} (found : Entries.get? number rom.banks = some bank)
    (shut : bank.current = none) (sized : bank.maxsize = some size) :
    bank.used ≤ size ↔
      ∀ before behind middle, requests = before ++ .select number (some size) :: behind →
        Performs {} before middle → (middle.bankAt number).current = none →
        (middle.bankAt number).used ≤ size := by
  -- A bank grows only; and it is overfull only if it was when its size was set.
  have there : rom.bankAt number = bank := by simp [bankAt, found]
  constructor
  · rintro fits before behind middle rfl first shut'
    -- All that is closed there is closed to the end.
    have keeps := (performs.behind_of_append first).keepsClosed (first.separate separate_empty) number
    have grown := keeps.used_le shut'
    rw [there] at grown
    omega
  · intro counted
    by_contra more
    have overfull : (rom.bankAt number).Overfull size := by
      rw [there]
      exact ⟨shut, sized, by omega⟩
    rcases performs.overfull separate_empty overfull with
      start | ⟨before, behind, middle, same, first, shut', more'⟩
    · -- No bank takes anything at the start.
      exact absurd start.more (Nat.not_lt_zero _)
    · have := counted before behind middle same first shut'
      omega

/-- Three bytes in a region that is opened, filled and closed. -/
def threeBytes : List Request :=
  [.openRegion 0x8000 none {}, .write [1, 2, 3] {}, .closeRegion {}]

/-- The banks with the three bytes in a bank of a given size. -/
def threeBytesIn (size : Nat) : Rom where
  banks := [(0, {
    number := 0, maxsize := some size
    closed := [⟨0x8000, none, .default, [some 1, some 2, some 3]⟩] })]

/-- The bank is given its size first. -/
theorem sizedFirst_performs :
    Performs {} (.select 0 (some 4) :: threeBytes) (threeBytesIn 4) :=
  .next trivial rfl (.next trivial rfl (.next trivial rfl (.next trivial rfl (.done _))))

/-- In a bank of four bytes that had its size from the start the three are found to fit. -/
theorem sizedFirst_fits :
    Performs {} (.select 0 (some 4) :: threeBytes) (threeBytesIn 4) ∧
      ((threeBytesIn 4).bankAt 0).used ≤ 4 := by
  -- The size is set once, while the bank is empty.
  have there : Entries.get? 0 (threeBytesIn 4).banks = some ((threeBytesIn 4).bankAt 0) := rfl
  refine ⟨sizedFirst_performs, (regions_fit_iff sizedFirst_performs there rfl rfl).2 ?_⟩
  intro before behind middle same first shut
  cases before with
  | nil =>
    cases first
    decide
  | cons request others =>
    -- None of the other requests gives the bank a size.
    have inside : Request.select 0 (some 4) ∈ threeBytes := by
      rw [(List.cons.inj same).2]
      exact List.mem_append_right _ (.head _)
    simp [threeBytes] at inside

/-- A bank that holds three bytes is given a size of two, and nothing fails. -/
theorem sizedLate_overfull :
    Performs {} (threeBytes ++ [.select 0 (some 2)]) (threeBytesIn 2) ∧
      ((threeBytesIn 2).bankAt 0).current = none ∧
      ((threeBytesIn 2).bankAt 0).maxsize = some 2 ∧ ((threeBytesIn 2).bankAt 0).used = 3 :=
  ⟨.next trivial rfl (.next trivial rfl (.next trivial rfl (.next trivial rfl (.done _)))),
    rfl, rfl, rfl⟩

end Rom

end CrossAsm
