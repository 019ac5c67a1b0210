import Mathlib
import CrossAsm.Proofs.Layout.TwoPass

/-! The bytes of a bank as a map of memory. Regions that share no address have one order by address.
In this order each region answers for the addresses from its origin up to that of the next one, first
with its bytes and then with its fill; the last region answers for all that follow. -/

namespace CrossAsm

/-! ### Regions by address -/

namespace RegionImage

variable {region other : RegionImage} {regions : List RegionImage} {address : Nat}

/-- The addresses of a region, which takes at least one. -/
def range (region : RegionImage) : Set Nat :=
  Set.Ico region.org (region.org + max region.bytes.length 1)

/-- The first address behind the bytes of a region. -/
def stop (region : RegionImage) : Nat :=
  region.org + region.bytes.length

/-- The byte that a region has for an address from its origin on: one of its own, or else fill. -/
def byteFor (region : RegionImage) (address : Nat) : UInt8 :=
  region.bytes[address - region.org]?.getD (region.padding.byteAt (address - region.org))

/-- A region that ends before another one starts. -/
def Before (region other : RegionImage) : Prop :=
  region.org + max region.bytes.length 1 ≤ other.org

/-- The last region, by address, that starts at an address or before it. -/
structure Governs (region : RegionImage) (regions : List RegionImage) (address : Nat) : Prop where
  /-- It is one of the regions. -/
  inside : region ∈ regions
  /-- It does not start behind the address. -/
  starts : region.org ≤ address
  /-- No region starts between it and the address. -/
  last : ∀ other ∈ regions, other.org ≤ address → other.org ≤ region.org

/-- A region and the fill behind it, address by address. -/
theorem bytes_append_fillAfter (region : RegionImage) (count : Nat) :
    region.bytes ++ region.fillAfter count =
      (List.range' region.org (region.bytes.length + count)).map region.byteFor := by
  -- Both sides are compared at one offset, which lies in the region, in the fill or behind both.
  apply List.ext_getElem?
  intro offset
  rw [List.getElem?_append, List.getElem?_map]
  by_cases own : offset < region.bytes.length
  · -- Inside the region the byte is its own.
    rw [if_pos own, List.getElem?_range' (by omega)]
    simp [byteFor, List.getElem?_eq_getElem own]
  · rw [if_neg own, fillAfter, List.getElem?_map]
    by_cases within : offset < region.bytes.length + count
    · -- Behind it the pattern of the fill goes on from the origin.
      have place : region.bytes.length + (offset - region.bytes.length) = offset := by omega
      rw [List.getElem?_range' (by omega), List.getElem?_range' within]
      simp [byteFor, List.getElem?_eq_none (Nat.le_of_not_lt own), place]
    · rw [List.getElem?_eq_none (by simp; omega), List.getElem?_eq_none (by simp; omega)]
      rfl

/-- Of two regions that share no address one ends before the other starts. -/
theorem before_or_before (apart : Disjoint region.range other.range) :
    region.Before other ∨ other.Before region := by
  -- Disjoint ranges of addresses lie on two sides.
  rw [range, range, Set.Ico_disjoint_Ico] at apart
  unfold Before
  omega

/-- Two of the regions that share no address are the same, or one ends before the other starts. -/
theorem eq_or_before (apart : (regions.map range).Pairwise Disjoint) (first : region ∈ regions)
    (second : other ∈ regions) : region = other ∨ region.Before other ∨ other.Before region := by
  -- Sharing no address is symmetric, so that it holds of any two of them in either order.
  have symmetric : Std.Symm fun first second : RegionImage =>
      Disjoint first.range second.range := ⟨fun _ _ apart => apart.symm⟩
  by_cases same : region = other
  · exact .inl same
  · exact .inr (before_or_before ((List.pairwise_map.1 apart).forall first second same))

/-- No two regions start at one address. -/
theorem eq_of_org (apart : (regions.map range).Pairwise Disjoint) (first : region ∈ regions)
    (second : other ∈ regions) (same : region.org = other.org) : region = other := by
  -- The one that ends before the other starts would start before it as well.
  rcases eq_or_before apart first second with equal | before | before
  · exact equal
  · unfold Before at before
    omega
  · unfold Before at before
    omega

/-- At most one region answers for an address. -/
theorem Governs.unique (apart : (regions.map range).Pairwise Disjoint)
    (governs : region.Governs regions address) (governs' : other.Governs regions address) :
    region = other := by
  -- Both regions start latest before the address, and so at one address.
  refine eq_of_org apart governs.inside governs'.inside (Nat.le_antisymm ?_ ?_)
  · exact governs'.last region governs.inside governs.starts
  · exact governs.last other governs'.inside governs'.starts

/-- A region answers for its own bytes. -/
theorem governs_of_mem (apart : (regions.map range).Pairwise Disjoint) (inside : region ∈ regions)
    (starts : region.org ≤ address) (ends : address < region.stop) :
    region.Governs regions address := by
  -- Any other region ends before this one or starts behind its end.
  refine ⟨inside, starts, fun other there early => ?_⟩
  unfold stop at ends
  rcases eq_or_before apart inside there with same | before | before
  · rw [same]
  · -- Whatever starts behind the region starts behind the address.
    unfold Before at before
    omega
  · unfold Before at before
    omega

end RegionImage

open RegionImage (Before)

/-! ### A bank -/

namespace BankImage

variable {bank : BankImage} {first : RegionImage} {others : List RegionImage} {address count : Nat}

/-- The bytes from a region to the last of those behind it, and fill behind that one. -/
def filled (first : RegionImage) (others : List RegionImage) (count : Nat) : List UInt8 :=
  first.bytes ++ (bytesAfter first others).1 ++ (bytesAfter first others).2.fillAfter count

/-- The first region has the gap up to the second one. -/
theorem filled_cons (first second : RegionImage) (others : List RegionImage) (count : Nat) :
    filled first (second :: others) count =
      (first.bytes ++ first.fillAfter (second.org - first.stop)) ++ filled second others count := by
  -- The bytes of the list are built up from its front.
  simp [filled, bytesAfter, RegionImage.stop]

/-- The last region is one of them. -/
theorem last_mem (first : RegionImage) (others : List RegionImage) :
    (bytesAfter first others).2 ∈ first :: others := by
  -- By induction on the regions behind the first one.
  induction others generalizing first with
  | nil => exact List.mem_singleton.2 rfl
  | cons second others ih => exact List.mem_cons_of_mem _ (ih second)

/-- No region ends behind the last one. -/
theorem stop_le_last (stacked : (first :: others).Pairwise Before) {region : RegionImage}
    (inside : region ∈ first :: others) : region.stop ≤ (bytesAfter first others).2.stop := by
  -- By induction on the regions, each of which ends before the next one starts.
  induction others generalizing first region with
  | nil =>
    obtain rfl := List.mem_singleton.1 inside
    exact Nat.le_refl _
  | cons second others ih =>
    obtain ⟨ahead, rest⟩ := List.pairwise_cons.1 stacked
    rcases List.mem_cons.1 inside with rfl | later
    · -- The first one ends before the second one starts, which ends no later than the last.
      have before := ahead second (List.mem_cons_self ..)
      have upto := ih rest (List.mem_cons_self ..)
      show region.stop ≤ (bytesAfter second others).2.stop
      simp only [Before, RegionImage.stop] at before upto ⊢
      omega
    · exact ih rest later

/-- With the gaps between them the regions reach from the origin of the first one to the end of the
last. -/
theorem length_content (stacked : (first :: others).Pairwise Before) :
    first.org + (first.bytes ++ (bytesAfter first others).1).length =
      (bytesAfter first others).2.stop := by
  -- A region and the gap behind it reach to the origin of the next one.
  induction others generalizing first with
  | nil => simp [bytesAfter, RegionImage.stop]
  | cons second others ih =>
    obtain ⟨ahead, rest⟩ := List.pairwise_cons.1 stacked
    have before := ahead second (List.mem_cons_self ..)
    have behind := ih rest
    simp only [Before] at before
    simp only [bytesAfter, List.length_append, RegionImage.fillAfter, List.length_map,
      List.length_range'] at behind ⊢
    omega

/-- For every address up to the end of the fill, the byte is that of the region that answers for it. -/
theorem filled_getElem? (stacked : (first :: others).Pairwise Before) (starts : first.org ≤ address)
    (ends : address < (bytesAfter first others).2.stop + count) :
    ∃ region : RegionImage, region.Governs (first :: others) address ∧
      (filled first others count)[address - first.org]? = some (region.byteFor address) := by
  -- By induction on the regions; the address lies before the second one or not.
  induction others generalizing first with
  | nil =>
    -- The last region answers for every address behind its start.
    simp only [bytesAfter, RegionImage.stop] at ends
    refine ⟨first, ⟨List.mem_singleton.2 rfl, starts, ?_⟩, ?_⟩
    · intro other inside _
      rw [List.mem_singleton.1 inside]
    · have place : first.org + (address - first.org) = address := by omega
      rw [filled, bytesAfter, List.append_nil, RegionImage.bytes_append_fillAfter,
        List.getElem?_map, List.getElem?_range' (by omega)]
      simp [place]
  | cons second others ih =>
    obtain ⟨ahead, rest⟩ := List.pairwise_cons.1 stacked
    have before := ahead second (List.mem_cons_self ..)
    unfold Before at before
    rw [filled_cons, RegionImage.bytes_append_fillAfter]
    -- The run of the first region ends where the second one starts.
    have reach : first.bytes.length + (second.org - first.stop) = second.org - first.org := by
      unfold RegionImage.stop
      omega
    rw [reach, List.getElem?_append, List.length_map, List.length_range']
    -- In front of the second region the first one answers.
    by_cases here : address < second.org
    · refine ⟨first, ⟨List.mem_cons_self .., starts, fun other inside early => ?_⟩, ?_⟩
      · rcases List.mem_cons.1 inside with rfl | later
        · exact Nat.le_refl _
        · -- Every later region starts behind the address.
          rcases List.mem_cons.1 later with rfl | later
          · omega
          · have behind := (List.pairwise_cons.1 rest).1 other later
            unfold Before at behind
            omega
      · have place : first.org + (address - first.org) = address := by omega
        rw [if_pos (by omega), List.getElem?_map, List.getElem?_range' (by omega)]
        simp [place]
    · -- From the second one on the others answer, as they do without the first.
      obtain ⟨region, governs, byte⟩ := ih rest (by omega) ends
      refine ⟨region, ⟨List.mem_cons_of_mem _ governs.inside, governs.starts, ?_⟩, ?_⟩
      · intro other inside early
        rcases List.mem_cons.1 inside with rfl | later
        · have := governs.last second (List.mem_cons_self ..) (by omega)
          omega
        · exact governs.last other later early
      · have place : address - first.org - (second.org - first.org) = address - second.org := by
          omega
        rw [if_neg (by omega), place]
        exact byte

/-- Sorting only changes the order of the regions. -/
theorem sorted_perm (bank : BankImage) : bank.sorted.Perm bank.regions :=
  List.mergeSort_perm ..

/-- Sorted regions start one behind the other. -/
theorem sorted_orgs (bank : BankImage) :
    bank.sorted.Pairwise fun first second => first.org ≤ second.org := by
  -- The order by origins is total and transitive, which is all that sorting needs.
  have sorted := @List.pairwise_mergeSort _ (fun a b : RegionImage => decide (a.org ≤ b.org))
    (by simp only [decide_eq_true_eq]; omega)
    (by simp only [Bool.or_eq_true, decide_eq_true_eq]; omega) bank.regions
  simp only [decide_eq_true_eq] at sorted
  exact sorted

/-- Sorted regions that share no address end one before the other. -/
theorem sorted_stacked (apart : (bank.regions.map RegionImage.range).Pairwise Disjoint) :
    bank.sorted.Pairwise Before := by
  -- Of two that share no address the one that starts first ends first.
  have apart' : bank.sorted.Pairwise fun first second => Disjoint first.range second.range :=
    (List.pairwise_map.1 apart).perm bank.sorted_perm.symm fun apart => apart.symm
  refine (bank.sorted_orgs.and apart').imp fun ⟨order, apart⟩ => ?_
  rcases RegionImage.before_or_before apart with before | before
  · exact before
  · unfold Before at before
    omega

/-- The addresses where a region starts. -/
def origins (bank : BankImage) : Set Nat :=
  {address | ∃ region ∈ bank.regions, region.org = address}

/-- The addresses behind the bytes of a region. -/
def ends (bank : BankImage) : Set Nat :=
  {address | ∃ region ∈ bank.regions, region.stop = address}

/-- The first of the sorted regions starts lowest, and the last one ends highest. -/
theorem sorted_limits (apart : (bank.regions.map RegionImage.range).Pairwise Disjoint)
    (sorted : bank.sorted = first :: others) :
    IsLeast bank.origins first.org ∧ IsGreatest bank.ends (bytesAfter first others).2.stop := by
  -- Sorting leaves the regions themselves, so that limits of the one list are limits of the other.
  have stacked := sorted_stacked apart
  have same : ∀ region, region ∈ first :: others ↔ region ∈ bank.regions := by
    intro region
    rw [← sorted, bank.sorted_perm.mem_iff]
  have order := bank.sorted_orgs
  rw [sorted] at stacked order
  refine ⟨⟨⟨first, (same first).1 (List.mem_cons_self ..), rfl⟩, ?_⟩,
    ⟨⟨_, (same _).1 (last_mem first others), rfl⟩, ?_⟩⟩
  · rintro address ⟨region, inside, rfl⟩
    rcases List.mem_cons.1 ((same region).2 inside) with rfl | later
    · exact Nat.le_refl _
    · exact (List.pairwise_cons.1 order).1 region later
  · rintro address ⟨region, inside, rfl⟩
    exact stop_le_last stacked ((same region).2 inside)

/-- A bank with a region has a first one by address. -/
theorem exists_sorted (present : bank.regions ≠ []) :
    ∃ first others, bank.sorted = first :: others := by
  -- Sorting drops nothing.
  refine List.exists_cons_of_ne_nil fun empty => present ?_
  have perm := bank.sorted_perm
  rw [empty] at perm
  exact List.nil_perm.1 perm

/-- The bytes reach from the first origin to the last end, or as far as the size of the bank, and each
is that of the region that answers for its address. -/
theorem bytes_governed (apart : (bank.regions.map RegionImage.range).Pairwise Disjoint)
    (sorted : bank.sorted = first :: others) :
    bank.bytes.length =
        max ((bytesAfter first others).2.stop - first.org) (bank.maxsize.getD 0) ∧
      ∀ i < bank.bytes.length, ∃ region : RegionImage,
        region.Governs bank.regions (first.org + i) ∧
          bank.bytes[i]? = some (region.byteFor (first.org + i)) := by
  -- The bytes are those of a filled list that starts with the first region.
  have stacked := sorted_stacked apart
  have same : ∀ region, region ∈ first :: others ↔ region ∈ bank.regions := by
    intro region
    rw [← sorted, bank.sorted_perm.mem_iff]
  rw [sorted] at stacked
  let last := (bytesAfter first others).2
  let content := first.bytes ++ (bytesAfter first others).1
  have reach : first.org + content.length = last.stop := length_content stacked
  have bytes : bank.bytes = filled first others (bank.maxsize.getD 0 - content.length) := by
    simp only [BankImage.bytes, sorted, filled, content]
  have length : bank.bytes.length = content.length + (bank.maxsize.getD 0 - content.length) := by
    simp only [bytes, filled, RegionImage.fillAfter, List.length_append, List.length_map,
      List.length_range', content]
  refine ⟨show _ = max (last.stop - first.org) _ by omega, fun i within => ?_⟩
  have ends : first.org + i < last.stop + (bank.maxsize.getD 0 - content.length) := by omega
  obtain ⟨region, governs, byte⟩ := filled_getElem? stacked (Nat.le_add_right _ _) ends
  rw [Nat.add_sub_cancel_left, ← bytes] at byte
  refine ⟨region, ⟨(same region).1 governs.inside, governs.starts, ?_⟩, byte⟩
  exact fun other inside => governs.last other ((same other).2 inside)

/-- What the bytes of a bank are: from the lowest origin on every address has its byte. -/
structure Maps (bank : BankImage) (lo hi : Nat) : Prop where
  /-- The bytes start at the lowest origin. -/
  lowest : IsLeast bank.origins lo
  /-- The regions reach up to the highest end. -/
  highest : IsGreatest bank.ends hi
  /-- The bank is filled up to its size if its regions do not reach as far. -/
  length : bank.bytes.length = max (hi - lo) (bank.maxsize.getD 0)
  /-- A byte of a region stands at its address. -/
  stored : ∀ region ∈ bank.regions, ∀ k byte i, region.bytes[k]? = some byte →
    region.org + k = lo + i → bank.bytes[i]? = some byte
  /-- Any other byte is fill of the last region before it, its pattern tiled from the origin. -/
  padded : ∀ i < bank.bytes.length,
    (∀ region ∈ bank.regions, lo + i ∉ Set.Ico region.org region.stop) →
      ∃ region : RegionImage, region.Governs bank.regions (lo + i) ∧
        bank.bytes[i]? = some (region.padding.byteAt (lo + i - region.org))

/-- The bytes of a bank with regions that share no address are a map of its memory. -/
theorem exists_maps (present : bank.regions ≠ [])
    (apart : (bank.regions.map RegionImage.range).Pairwise Disjoint) :
    ∃ lo hi, bank.Maps lo hi := by
  -- The limits are those of the first and the last region in the order of addresses.
  obtain ⟨first, others, sorted⟩ := exists_sorted present
  obtain ⟨lowest, highest⟩ := sorted_limits apart sorted
  obtain ⟨length, governed⟩ := bytes_governed apart sorted
  refine ⟨_, _, lowest, highest, length, ?_, ?_⟩
  · intro region inside k byte i own place
    have short := (List.getElem?_eq_some_iff.1 own).1
    have ends : region.org + region.bytes.length ≤ _ := highest.2 ⟨region, inside, rfl⟩
    obtain ⟨found, governs, stands⟩ := governed i (by omega)
    -- The region of the byte is the one that answers for the address.
    have governs' : region.Governs bank.regions (first.org + i) :=
      RegionImage.governs_of_mem apart inside (by omega)
        (show _ < region.org + region.bytes.length by omega)
    rw [stands, governs.unique apart governs', RegionImage.byteFor, ← place,
      Nat.add_sub_cancel_left, own]
    rfl
  · intro i within uncovered
    obtain ⟨region, governs, stands⟩ := governed i within
    refine ⟨region, governs, ?_⟩
    -- The address is not one of the region's bytes, so it lies behind them.
    have behind : region.bytes.length ≤ first.org + i - region.org := by
      have outside := uncovered region governs.inside
      have starts := governs.starts
      simp only [Set.mem_Ico, RegionImage.stop, not_and, Nat.not_lt] at outside
      have := outside starts
      omega
    rw [stands, RegionImage.byteFor, List.getElem?_eq_none behind]
    rfl

/-- The order in which regions were opened does not show. -/
theorem bytes_of_perm (apart : (bank.regions.map RegionImage.range).Pairwise Disjoint)
    {regions : List RegionImage} (perm : regions.Perm bank.regions) :
    BankImage.bytes { bank with regions } = bank.bytes := by
  -- Regions that start at different addresses are sorted in one way only.
  have same : BankImage.sorted { bank with regions } = bank.sorted := by
    refine List.Perm.eq_of_pairwise ?_ (sorted_orgs _) bank.sorted_orgs
      ((sorted_perm _).trans (perm.trans bank.sorted_perm.symm))
    intro first second inside inside' order order'
    refine RegionImage.eq_of_org apart ?_ (bank.sorted_perm.mem_iff.1 inside')
      (Nat.le_antisymm order order')
    exact perm.mem_iff.1 ((sorted_perm _).mem_iff.1 inside)
  unfold BankImage.bytes
  rw [same]

end BankImage

/-! ### All banks -/

/-- The bytes of all banks are joined in an order of their numbers. -/
theorem Image.exists_ordered (image : Image) :
    ∃ ordered : List BankImage, ordered.Perm image.banks ∧
      (ordered.Pairwise fun first second => first.number ≤ second.number) ∧
      image.bytes = ordered.flatMap BankImage.bytes := by
  -- The banks are sorted by their numbers before they are joined.
  have sorted := @List.pairwise_mergeSort _ (fun a b : BankImage => decide (a.number ≤ b.number))
    (by simp only [decide_eq_true_eq]; omega)
    (by simp only [Bool.or_eq_true, decide_eq_true_eq]; omega) image.banks
  simp only [decide_eq_true_eq] at sorted
  exact ⟨_, List.mergeSort_perm .., sorted, rfl⟩

/-- Banks are put one behind the other by their numbers, whatever the order they came in. -/
theorem Image.bytes_of_ordered {image : Image} {ordered : List BankImage}
    (distinct : (image.banks.map BankImage.number).Nodup) (perm : ordered.Perm image.banks)
    (order : ordered.Pairwise fun first second => first.number ≤ second.number) :
    image.bytes = ordered.flatMap BankImage.bytes := by
  -- Both lists are orders of the same banks by their numbers.
  obtain ⟨joined, perm', order', bytes⟩ := image.exists_ordered
  -- Each number is that of one bank, so there is one order.
  have same : joined = ordered := by
    refine List.Perm.eq_of_pairwise ?_ order' order (perm'.trans perm.symm)
    intro first second inside inside' low high
    exact List.inj_on_of_nodup_map distinct (perm'.mem_iff.1 inside) (perm.mem_iff.1 inside')
      (Nat.le_antisymm low high)
  rw [bytes, same]

/-- Layout makes each bank once. -/
theorem Layout.numbers_nodup {session : Session} {stmts : List Stmt} {image : Image}
    (returned : layout session stmts = .ok image) :
    (image.banks.map BankImage.number).Nodup := by
  -- Banks are kept under their numbers, one to each, all through the walk.
  obtain ⟨last, ran, rfl⟩ := Layout.layout_eq_ok.1 returned
  obtain ⟨final, assembled⟩ := Layout.run_assembled ran
  have keyed := (Layout.walk_tracks (Tracks.start session) assembled.walked).keyed
  obtain ⟨bytesOf, -, banks⟩ := assembled.bytes
  -- The numbers of the image are the keys that the banks stand under.
  have numbers : last.image.banks.map BankImage.number = final.rom.banks.map Prod.fst := by
    rw [banks, List.map_map]
    exact List.map_congr_left fun entry inside => keyed.number inside
  rw [numbers]
  exact keyed.distinct

/-- The bytes of a bank with regions that share no address are the map of its memory: they reach from
the lowest origin to the highest end, or as far as the size of the bank if that is more, and each is
the byte that a region has there or else the fill of the last region before it. They do not depend on
the order of the regions. The bytes of all banks follow each other by the numbers of the banks,
whatever the order of these, and layout gives no number to two banks. -/
theorem banks_are_memory_maps :
    (∀ bank : BankImage, bank.regions ≠ [] →
      (bank.regions.map RegionImage.range).Pairwise Disjoint →
      (∃ lo hi, bank.Maps lo hi) ∧ ∀ regions : List RegionImage, regions.Perm bank.regions →
        BankImage.bytes { bank with regions } = bank.bytes) ∧
    (∀ (image : Image) (ordered : List BankImage), (image.banks.map BankImage.number).Nodup →
      ordered.Perm image.banks →
      (ordered.Pairwise fun first second => first.number ≤ second.number) →
      image.bytes = ordered.flatMap BankImage.bytes) ∧
    ∀ (session : Session) (stmts : List Stmt) (image : Image),
      layout session stmts = .ok image → (image.banks.map BankImage.number).Nodup := by
  -- One lemma for each of the three parts.
  refine ⟨fun bank present apart => ⟨BankImage.exists_maps present apart, ?_⟩, ?_, ?_⟩
  · exact fun regions perm => BankImage.bytes_of_perm apart perm
  · exact fun image ordered distinct perm order => Image.bytes_of_ordered distinct perm order
  · exact fun session stmts image returned => Layout.numbers_nodup returned

/-- A bank whose regions were opened out of order, one of them empty. -/
def gappedBank : BankImage where
  number := 1
  maxsize := some 9
  regions := [⟨0x8004, none, [3, 4], ⟨[0, 1], by simp⟩⟩, ⟨0x8000, none, [1, 2], ⟨[0xEA], by simp⟩⟩,
    ⟨0x8003, none, [], .default⟩]

/-- A bank of one byte. -/
def shortBank : BankImage where
  number := 0
  maxsize := none
  regions := [⟨0xC000, none, [7], .default⟩]

/-- The gap behind the first region has its fill, the empty region fills the byte before the last one,
and the pattern of the last one goes on up to the size of the bank. The bank of the lower number comes
first in the file, and a bank that layout makes has a number of its own. -/
theorem gappedBank_mapped :
    (gappedBank.regions.map RegionImage.range).Pairwise Disjoint ∧
    (∃ lo hi, gappedBank.Maps lo hi) ∧ gappedBank.bytes = [1, 2, 0xEA, 0xFF, 3, 4, 0, 1, 0] ∧
    Image.bytes { banks := [gappedBank, shortBank] } = shortBank.bytes ++ gappedBank.bytes ∧
    ∃ image, layout { cpu := .nmos } jumpAhead = .ok image ∧
      (image.banks.map BankImage.number).Nodup := by
  -- The bank has three regions, the one in the middle without bytes of its own.
  have apart : (gappedBank.regions.map RegionImage.range).Pairwise Disjoint := by
    simp [gappedBank, RegionImage.range, Set.Ico_disjoint_Ico]
  obtain ⟨maps, ordered, numbered⟩ := banks_are_memory_maps
  refine ⟨apart, (maps gappedBank (by simp [gappedBank]) apart).1, by cbv, ?_, ?_⟩
  · have joined := ordered { banks := [gappedBank, shortBank] } [shortBank, gappedBank]
      (by decide) (.swap ..) (by simp [gappedBank, shortBank])
    simpa using joined
  · have evaluated : (layout { cpu := .nmos } jumpAhead).toOption.map
        (fun image => image.banks.length) = some 1 := by
      decide +kernel
    obtain ⟨image, returned, -⟩ := Layout.exists_of_evaluated evaluated
    exact ⟨image, returned, numbered _ _ _ returned⟩

end CrossAsm
