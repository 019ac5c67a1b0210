import Mathlib
import CrossAsm.Proofs.Failures
import CrossAsm.Proofs.Layout.TwoPass

/-! What a request can do to a bank, said once as a step. Each step keeps the regions that are closed
disjoint and every region inside the address space. -/

namespace CrossAsm

/-! ### Regions -/

namespace Buffer

/-- The addresses of a region, which takes at least one. -/
def range (region : Buffer) : Set Nat :=
  Set.Ico region.org region.stop

/-- A region that lies inside the address space and holds no more than it may. -/
structure Fits (region : Buffer) : Prop where
  /-- It ends before the address space does. -/
  inside : region.stop ≤ addressSpace
  /-- It holds no more than its size. -/
  size : ∀ maxsize ∈ region.maxsize, region.length ≤ maxsize

variable {region region' : Buffer} {pos : Pos}

/-- A region fits that is made as long as its size and the address space allow for. -/
theorem Fits.upTo (fits : region.Fits) {stop : Nat}
    (within : ∀ maxsize ∈ region.maxsize, stop ≤ maxsize)
    (inside : region.org + stop ≤ addressSpace) : (region.upTo stop).Fits := by
  -- The end is below the address space, and the length is the size that was asked for.
  refine ⟨?_, fun maxsize limit => (region.length_upTo stop).symm ▸ within maxsize limit⟩
  -- With a size the region stops where it did, and without one right behind its bytes.
  have before := fits.inside
  simp only [Buffer.stop, extent, length_upTo] at before ⊢
  show region.org + max (max (region.maxsize.getD 0) stop) 1 ≤ addressSpace
  cases limit : region.maxsize with
  | none =>
    simp only [limit, Option.getD_none] at before ⊢
    omega
  | some maxsize =>
    have enough := within maxsize limit
    simp only [limit, Option.getD_some] at before ⊢
    omega

/-- A region with space claimed in it still fits. -/
theorem Fits.claim (fits : region.Fits) {size offset : Nat}
    (ran : region.claim size pos = .ok (offset, region')) : region'.Fits := by
  -- A claim is granted within the limits only.
  obtain ⟨⟨within, inside, -⟩, -, rfl⟩ := reserveUpTo_iff.1 ran
  exact fits.upTo within inside

/-- A region in which space is reserved still fits, even if that gives space back. -/
theorem Fits.reserve (fits : region.Fits) {size offset : Nat}
    (ran : region.reserve size pos = .ok (offset, region')) : region'.Fits := by
  -- What was checked is that the new end lies in the region and in the address space.
  obtain ⟨⟨within, inside, short⟩, -, rfl⟩ := reserveUpTo_iff.1 ran
  refine fits.upTo within ?_
  -- The region starts in the address space, so that no words are missing behind it.
  have before := fits.inside
  simp only [stop, addressSpace] at before short
  rwa [Word.add_of_lt (by simp only [Word.count]; omega)] at inside

/-- Where a region lies, and whether it fits, does not depend on what is written in it. -/
theorem range_blanked (region : Buffer) : region.blanked.range = region.range := by
  -- The range counts the bytes but does not read them.
  simp [range, blanked, stop, extent, Buffer.length]

/-- A region fits if it does with nothing written in it. -/
theorem fits_blanked : region.blanked.Fits ↔ region.Fits := by
  -- Neither the end nor the length of a region looks at its bytes.
  have length : region.blanked.length = region.length := by simp [blanked, Buffer.length]
  have stops : region.blanked.stop = region.stop := by simp [stop, extent, blanked, Buffer.length]
  constructor
  · exact fun fits => ⟨stops ▸ fits.inside, fun maxsize limit => length ▸ fits.size maxsize limit⟩
  · exact fun fits => ⟨stops.symm ▸ fits.inside,
      fun maxsize limit => length.symm ▸ fits.size maxsize limit⟩

/-- Regions that differ in their bytes only fit alike. -/
theorem Fits.ofBlanked (fits : region.Fits) (same : region'.blanked = region.blanked) :
    region'.Fits :=
  fits_blanked.1 (same ▸ fits_blanked.2 fits)

/-- A region that bytes are written to still fits. -/
theorem Fits.write (fits : region.Fits) {bytes : List UInt8} {offset : Nat}
    (ran : region.write bytes pos = .ok (offset, region')) : region'.Fits := by
  -- Writing is claiming space, and then filling it.
  simp only [Buffer.write, except_bind_eq_ok, except_pure_eq_ok, Prod.mk.injEq] at ran
  obtain ⟨⟨place, grown⟩, claimed, rfl, rfl⟩ := ran
  exact (fits.claim claimed).ofBlanked (blanked_writeAt ..)

/-- A region whose cursor is moved on still fits. -/
theorem Fits.align (fits : region.Fits) {multiple : Nat}
    (ran : region.align multiple pos = .ok region') : region'.Fits := by
  -- A multiple of one leaves the region as it is, and any other one reserves the gap.
  unfold Buffer.align at ran
  split at ran
  · cases ran
    exact fits
  · simp only [except_bind_eq_ok, except_pure_eq_ok] at ran
    obtain ⟨⟨offset, grown⟩, claimed, rfl⟩ := ran
    exact fits.claim claimed

end Buffer

/-! ### Banks -/

/-- A total is a sum as the library has it. -/
theorem total_eq_sum (numbers : List Nat) : total numbers = numbers.sum :=
  rfl

namespace Bank

/-- What a request does to the bank that it is about. -/
inductive Step (bank : Bank) : Bank → Prop
  | resized (maxsize : Option Nat) : Step bank { bank with maxsize }
  | worked {region region' : Buffer} (isOpen : bank.current = some region)
    (fits : region.Fits → region'.Fits) : Step bank { bank with current := some region' }
  | opened {region : Buffer} (free : bank.current = none) (blank : region.data = [])
    (inside : region.stop ≤ addressSpace) : Step bank { bank with current := some region }
  | closed {region : Buffer} (isOpen : bank.current = some region)
    (free : bank.overlapping region.org region.stop = none) :
    Step bank { bank with closed := bank.closed ++ [region], current := none }
  | written (index offset : Nat) (bytes : List UInt8) :
    Step bank (bank.writeAt index offset bytes)

/-- A bank whose regions are kept apart. -/
structure Apart (bank : Bank) : Prop where
  /-- Every region fits. -/
  fits : ∀ region ∈ bank.regions, region.Fits
  /-- Regions that are closed share no address. -/
  disjoint : (bank.closed.map Buffer.range).Pairwise Disjoint

variable {bank bank' : Bank}

/-- A request leaves the number of a bank. -/
theorem Step.number (step : bank.Step bank') : bank'.number = bank.number := by
  -- Writing is the only request that goes through the regions.
  cases step with
  | written => exact number_writeAt ..
  | _ => rfl

/-- A region that overlaps no closed one is apart from all of them. -/
theorem disjoint_of_overlapping {region : Buffer}
    (free : bank.overlapping region.org region.stop = none) :
    ∀ other ∈ bank.closed, Disjoint other.range region.range := by
  intro other inside
  -- The search looked at every closed region.
  have passed := List.find?_eq_none.1 free other inside
  simp only [Bool.and_eq_true, decide_eq_true_eq, not_and, Nat.not_lt] at passed
  rw [Buffer.range, Buffer.range, Set.Ico_disjoint_Ico]
  by_cases behind : region.org < other.stop
  · have before := passed behind
    omega
  · omega

/-- Every request keeps the regions of a bank apart. -/
theorem Step.apart (step : bank.Step bank') (apart : bank.Apart) : bank'.Apart := by
  -- By cases on the request; only opening and closing a region change which ones there are.
  obtain ⟨fits, disjoint⟩ := apart
  cases step with
  -- The size of the bank is no matter of its regions.
  | resized => exact ⟨fits, disjoint⟩
  | worked isOpen stillFits =>
    refine ⟨fun region inside => ?_, disjoint⟩
    rcases List.mem_append.1 inside with before | here
    · exact fits region (List.mem_append_left _ before)
    · -- The open region is what came of one that fits.
      obtain rfl := Option.some.inj (Option.mem_toList.1 here)
      exact stillFits (fits _ (by simp [regions, isOpen]))
  | opened free blank inside =>
    refine ⟨fun region present => ?_, disjoint⟩
    rcases List.mem_append.1 present with before | here
    · exact fits region (List.mem_append_left _ before)
    · -- An empty region holds no more than any size.
      obtain rfl := Option.some.inj (Option.mem_toList.1 here)
      exact ⟨inside, fun maxsize _ => by simp [Buffer.length, blank]⟩
  | closed isOpen free =>
    -- The region that is closed was open before, and overlaps none of the others.
    refine ⟨fun region inside => fits region ?_, ?_⟩
    · simpa [regions, isOpen] using inside
    · rw [List.map_append, List.pairwise_append]
      refine ⟨disjoint, List.pairwise_singleton _ _, fun first old last new => ?_⟩
      obtain ⟨other, inside, rfl⟩ := List.mem_map.1 old
      obtain rfl := List.mem_singleton.1 new
      exact disjoint_of_overlapping free other inside
  | written index offset bytes =>
    obtain ⟨closed, all⟩ := bank.blanked_writeAt index offset bytes
    have ranges : ∀ closed : List Buffer,
        closed.map Buffer.range = (closed.map Buffer.blanked).map Buffer.range := by
      intro closed
      simp [Buffer.range_blanked]
    constructor
    · -- Writing changes no limit and no range.
      intro written inside
      -- Blanked, the region is one of the bank before.
      obtain ⟨old, before, same⟩ := List.mem_map.1 (all ▸ List.mem_map.2 ⟨written, inside, rfl⟩)
      exact (fits old before).ofBlanked same.symm
    · rw [ranges, closed, ← ranges]
      exact disjoint

end Bank

/-! ### All banks -/

namespace Rom

variable {rom rom' : Rom} {pos : Pos}

/-- The bank of a number, as it is or as it would be made. -/
def bankAt (rom : Rom) (number : Nat) : Bank :=
  (Entries.get? number rom.banks).getD { number, maxsize := rom.banksize }

/-- The regions under a number, those that are closed and the open one. -/
def contents (rom : Rom) (number : Nat) : List Buffer × Option Buffer :=
  ((rom.bankAt number).closed, (rom.bankAt number).current)

/-- The banks with the current one made, if it was not yet. -/
def entered (rom : Rom) : Rom :=
  match Entries.get? rom.current rom.banks with
  | some _ => rom
  | none => { rom with banks := Entries.insert rom.current (rom.bankAt rom.current) rom.banks }

/-- Asking for the current bank makes it, and does nothing else. -/
theorem currentBank_eq (rom : Rom) : currentBank rom = .ok (rom.bankAt rom.current) rom.entered := by
  -- The bank is there already or is made without regions.
  unfold entered
  cases found : Entries.get? rom.current rom.banks with
  | some bank => simp [currentBank_of_get? found, bankAt, found]
  | none =>
    simp only [currentBank, bind_eq_ok, get_eq_ok]
    refine ⟨rom, rom, ⟨rfl, rfl⟩, ?_⟩
    simp only [found, bankAt, Option.getD_none]
    rfl

/-- What is done with the current bank starts from the banks with that one made. -/
theorem bind_currentBank {α : Type} (k : Bank → RomStep α) (rom : Rom) :
    (currentBank >>= k) rom = k (rom.bankAt rom.current) rom.entered := by
  -- Asking for the bank is the first step.
  show EStateM.bind currentBank k rom = _
  rw [EStateM.bind, currentBank_eq]

/-- A bank that is made has no regions. -/
theorem bankAt_entered (rom : Rom) (number : Nat) : rom.entered.bankAt number = rom.bankAt number := by
  -- Only a bank that was missing is added, as it would have been made.
  unfold entered
  split
  · rfl
  · rename_i absent
    by_cases here : rom.current = number
    · subst here
      simp [bankAt, Entries.get?_insert, absent]
    · simp [bankAt, Entries.get?_insert, here]

/-- A bank that is there is not made once more. -/
theorem entered_of_isSome (found : (Entries.get? rom.current rom.banks).isSome = true) :
    rom.entered = rom := by
  -- A bank is added only where none is found.
  unfold entered
  split
  · rfl
  · rename_i absent
    simp [absent] at found

/-- Making a bank does not select another. -/
@[simp]
theorem current_entered (rom : Rom) : rom.entered.current = rom.current := by
  -- Whether the bank is made or was there, the selection is left.
  unfold entered
  split <;> rfl

/-- The current bank is there once it is made. -/
theorem isSome_entered (rom : Rom) :
    (Entries.get? rom.current rom.entered.banks).isSome = true := by
  -- The bank was found, or it was added.
  unfold entered
  split
  · rename_i found
    rw [found]
    rfl
  · simp [Entries.get?_insert]

/-- Making a bank changes no region. -/
theorem contents_entered (rom : Rom) (number : Nat) :
    rom.entered.contents number = rom.contents number := by
  -- The bank that is made is as the one that stands for it before.
  rw [contents, contents, bankAt_entered]

/-- A bank has the number that it is asked for by. -/
theorem Keyed.number_bankAt (keyed : rom.Keyed) (number : Nat) :
    (rom.bankAt number).number = number := by
  -- A bank that is there has its number, and a new one is made with it.
  unfold bankAt
  cases found : Entries.get? number rom.banks with
  | none => rfl
  | some bank => exact keyed.number (Entries.mem_of_get? found)

/-- One step on the banks: one of them, perhaps made for it, takes a step, and all others stay. -/
inductive Moves (rom : Rom) : Rom → Prop
  | idle {rom' : Rom} (banks : rom'.banks = rom.banks) : Moves rom rom'
  | acts {rom' : Rom} (number : Nat) {bank : Bank} (step : (rom.bankAt number).Step bank)
    (banks : rom'.banks = Entries.insert number bank rom.banks) : Moves rom rom'

/-- Banks under their numbers whose regions are kept apart. -/
structure Separate (rom : Rom) : Prop where
  /-- The banks stand under their numbers. -/
  keyed : rom.Keyed
  /-- In each of them the regions are kept apart. -/
  apart : ∀ {number : Nat} {bank : Bank}, Entries.get? number rom.banks = some bank → bank.Apart

/-- At the start there are no banks. -/
theorem separate_empty : Separate {} := by
  -- There is nothing that could overlap.
  refine ⟨⟨fun inside => ?_, .nil⟩, fun found => ?_⟩
  · cases inside
  · cases found

/-- A bank that would be made has no regions to be kept apart. -/
theorem Separate.bankAt (separate : rom.Separate) (number : Nat) : (rom.bankAt number).Apart := by
  -- The bank is one that is there, or it has no regions.
  unfold Rom.bankAt
  cases found : Entries.get? number rom.banks with
  | none => exact ⟨nofun, .nil⟩
  | some bank => exact separate.apart found

/-- Every step on the banks keeps the regions apart. -/
theorem Moves.separate (moves : rom.Moves rom') (separate : rom.Separate) : rom'.Separate := by
  -- Only the bank that acts changes, and it takes a step.
  cases moves with
  | idle banks =>
    refine ⟨(Keeps.ofBanks separate.keyed banks).keyed, fun found => ?_⟩
    rw [banks] at found
    exact separate.apart found
  | @acts number bank step banks =>
    have numbered : bank.number = number :=
      step.number.trans (separate.keyed.number_bankAt number)
    refine ⟨(Keeps.ofBanks (separate.keyed.insert numbered) banks).keyed, fun found => ?_⟩
    rw [banks, Entries.get?_insert] at found
    split at found
    · obtain rfl := Option.some.inj found
      exact step.apart (separate.bankAt number)
    · exact separate.apart found

/-- Step after step on the banks. -/
def Moved : Rom → Rom → Prop :=
  Relation.ReflTransGen Moves

/-- Step after step, the regions are kept apart. -/
theorem Moved.separate (moved : rom.Moved rom') (separate : rom.Separate) : rom'.Separate := by
  -- By induction on the steps, each of which keeps the regions apart.
  induction moved with
  | refl => exact separate
  | tail _ moves ih => exact moves.separate ih

/-- The current bank is made in one step. -/
theorem moved_entered (rom : Rom) : rom.Moved rom.entered := by
  -- The bank that is made is put down as it would be found.
  refine .single ?_
  unfold entered
  split
  · exact .idle rfl
  · exact .acts rom.current (.resized (rom.bankAt rom.current).maxsize) rfl

/-- What is done to the current bank is a step on the banks. -/
theorem setBank_moved (keyed : rom.Keyed) {bank : Bank}
    (step : (rom.bankAt rom.current).Step bank) (ran : setBank bank rom.entered = .ok () rom') :
    rom.Moved rom' := by
  -- The bank is made first, and then it takes its step.
  have number : bank.number = rom.current := step.number.trans (keyed.number_bankAt _)
  simp only [setBank, modify_eq_ok] at ran
  subst ran
  refine .tail (moved_entered rom) (.acts rom.current ?_ (by rw [number]))
  rw [bankAt_entered]
  exact step

end Rom

end CrossAsm
