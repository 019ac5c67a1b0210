import CrossAsm.Proofs.Layout.Banks

/-! The size of a bank in the file. When a region is closed, the bytes of the regions are counted
against the size of their bank; the gaps between the regions take bytes as well. So a bank has its size
in the file if and only if all addresses from its lowest origin to its highest end fit into it. -/

namespace CrossAsm

open RegionImage (Before)

namespace BankImage

variable {bank : BankImage} {first : RegionImage} {others : List RegionImage} {lo hi : Nat}

/-- The bytes that all regions of a bank take together, as they are counted when one is closed. -/
def used (bank : BankImage) : Nat :=
  total (bank.regions.map fun region => region.bytes.length)

/-- Every address between two has a byte of a region. -/
def Gapless (bank : BankImage) (lo hi : Nat) : Prop :=
  ∀ address, lo ≤ address → address < hi →
    ∃ region ∈ bank.regions, address ∈ Set.Ico region.org region.stop

/-- Regions one behind the other take no more bytes than there are addresses up to the end of the
last one. -/
theorem total_le_last (stacked : (first :: others).Pairwise Before) :
    first.org + total ((first :: others).map fun region => region.bytes.length) ≤
      (bytesAfter first others).2.stop := by
  -- By induction on the regions behind the first one.
  induction others generalizing first with
  | nil => simp [bytesAfter, RegionImage.stop]
  | cons second others ih =>
    -- What is left out of the count is the gap before the second region.
    obtain ⟨ahead, rest⟩ := List.pairwise_cons.1 stacked
    have before := ahead second (List.mem_cons_self ..)
    have behind := ih rest
    simp only [Before] at before
    simp only [List.map_cons, total_cons, bytesAfter] at behind ⊢
    omega

/-- Without a gap they take as many. -/
theorem total_eq_last (stacked : (first :: others).Pairwise Before)
    (covered : ∀ address, first.org ≤ address → address < (bytesAfter first others).2.stop →
      ∃ region ∈ first :: others, address ∈ Set.Ico region.org region.stop) :
    first.org + total ((first :: others).map fun region => region.bytes.length) =
      (bytesAfter first others).2.stop := by
  -- A gap behind the first region would be an address that none of them covers.
  induction others generalizing first with
  -- One region alone takes what it takes.
  | nil => simp [bytesAfter, RegionImage.stop]
  | cons second others ih =>
    obtain ⟨ahead, rest⟩ := List.pairwise_cons.1 stacked
    have before : first.org + max first.bytes.length 1 ≤ second.org :=
      ahead second (List.mem_cons_self ..)
    have reach : second.stop ≤ (bytesAfter second others).2.stop :=
      stop_le_last rest (List.mem_cons_self ..)
    -- Regions from the second one on do not start before it.
    have later : ∀ region ∈ second :: others, second.org ≤ region.org := by
      intro region inside
      rcases List.mem_cons.1 inside with rfl | inside
      · exact Nat.le_refl _
      · have := (List.pairwise_cons.1 rest).1 region inside
        unfold Before at this
        omega
    -- The address behind the first region is the second one's, since no other could have it.
    have joined : first.org + first.bytes.length = second.org := by
      by_contra gap
      have short : first.stop < second.org := by
        unfold RegionImage.stop
        omega
      have within : first.stop < (bytesAfter second others).2.stop := by
        unfold RegionImage.stop at short reach ⊢
        omega
      obtain ⟨region, inside, low, high⟩ := covered first.stop (Nat.le_add_right _ _) within
      rcases List.mem_cons.1 inside with rfl | inside
      · exact Nat.lt_irrefl _ high
      · have := later region inside
        omega
    -- The others leave no gap either, and take as many as lie behind the first one.
    have behind := ih rest fun address low high => by
      obtain ⟨region, inside, from_, upto⟩ := covered address (by omega) high
      rcases List.mem_cons.1 inside with rfl | inside
      · -- The first region ends before the second one starts.
        unfold RegionImage.stop at upto
        omega
      · exact ⟨region, inside, from_, upto⟩
    simp only [List.map_cons, total_cons, bytesAfter] at behind ⊢
    omega

/-- The regions of a bank take no more bytes than there are addresses from the lowest origin to the
highest end, and as many if there is no gap between them. -/
theorem Maps.used_le (maps : bank.Maps lo hi)
    (apart : (bank.regions.map RegionImage.range).Pairwise Disjoint) :
    bank.used ≤ hi - lo ∧ (bank.Gapless lo hi → bank.used = hi - lo) := by
  obtain ⟨lowest, inside, -⟩ := maps.lowest.1
  obtain ⟨first, others, sorted⟩ := exists_sorted (List.ne_nil_of_mem inside)
  obtain ⟨least, greatest⟩ := sorted_limits apart sorted
  have stacked := sorted_stacked apart
  rw [sorted] at stacked
  -- Counted in the order of their addresses, the regions reach from the one to the other.
  obtain rfl := maps.lowest.unique least
  obtain rfl := maps.highest.unique greatest
  have same : bank.used = total ((first :: others).map fun region => region.bytes.length) := by
    rw [used, total_eq_sum, total_eq_sum, ← sorted]
    exact (bank.sorted_perm.symm.map _).sum_eq
  rw [same]
  refine ⟨Nat.le_sub_of_add_le (Nat.add_comm _ _ ▸ total_le_last stacked), fun gapless => ?_⟩
  have joined := total_eq_last stacked fun address low high => by
    obtain ⟨region, there, within⟩ := gapless address low high
    exact ⟨region, sorted ▸ bank.sorted_perm.mem_iff.2 there, within⟩
  omega

end BankImage

/-- The bytes of the regions are as many as they take in their bank. -/
theorem Layout.used_bankImage (bank : Bank) : (bankImage bank).used = bank.used := by
  -- Both numbers are sums over the regions, and each region adds the same.
  rw [BankImage.used, Bank.used, bankImage, List.map_map]
  congr 1
  exact List.map_congr_left fun region _ => length_finish region

/-- In the file a bank stands between those of lower and those of higher numbers. -/
theorem Image.exists_bytes_split {image : Image} {bank : BankImage}
    (inside : bank ∈ image.banks) :
    ∃ before behind, (before ++ bank :: behind).Perm image.banks ∧
      ((before ++ bank :: behind).Pairwise fun first second => first.number ≤ second.number) ∧
      image.bytes = before.flatMap BankImage.bytes ++
        (bank.bytes ++ behind.flatMap BankImage.bytes) := by
  -- The file has the banks in the order of their numbers, one of which is the bank.
  obtain ⟨ordered, perm, order, bytes⟩ := image.exists_ordered
  obtain ⟨before, behind, rfl⟩ := List.append_of_mem (perm.mem_iff.2 inside)
  exact ⟨before, behind, perm, order, by simpa using bytes⟩

/-- A bank that has a size and a region has this size in the file if and only if all addresses from its
lowest origin to its highest end fit into it. The bytes of its regions, which are what is counted
against the size, fit into it then, but are enough only where there is no gap between them. The bank
that follows in the file starts right behind. -/
theorem sized_bank_filled_iff {session : Session} {stmts : List Stmt} {image : Image}
    (returned : layout session stmts = .ok image) {bank : BankImage} (inside : bank ∈ image.banks)
    {size : Nat} (sized : bank.maxsize = some size) (present : bank.regions ≠ []) :
    ∃ lo hi, bank.Maps lo hi ∧ bank.bytes.length = max (hi - lo) size ∧
      (bank.bytes.length = size ↔ hi - lo ≤ size) ∧
      (∀ made : Bank, Layout.bankImage made = bank → made.used ≤ hi - lo ∧
        (bank.Gapless lo hi → made.used ≤ size → bank.bytes.length = size)) ∧
      ∃ before behind, (before ++ bank :: behind).Perm image.banks ∧
        ((before ++ bank :: behind).Pairwise fun first second => first.number ≤ second.number) ∧
        image.bytes = before.flatMap BankImage.bytes ++
          (bank.bytes ++ behind.flatMap BankImage.bytes) := by
  -- The file has the bytes from the lowest origin to the highest end, or as many as the size asks
  -- for.
  have apart := Layout.regions_disjoint returned inside
  obtain ⟨lo, hi, maps⟩ := BankImage.exists_maps present apart
  obtain ⟨count, exact_⟩ := maps.used_le apart
  have length : bank.bytes.length = max (hi - lo) size := by
    rw [maps.length, sized, Option.getD_some]
  refine ⟨lo, hi, maps, length, by omega, fun made same => ?_, Image.exists_bytes_split inside⟩
  rw [← Layout.used_bankImage, same]
  refine ⟨count, fun gapless fits => ?_⟩
  have := exact_ gapless
  omega

/-- A bank of four bytes with two regions of one byte each, the second one at an address of its own,
and a bank behind it. -/
def twoRegions (second : Nat) : List Stmt :=
  let line (op : Op) : Stmt := .item (.instruction ⟨op, .none, some .implied, .global, default⟩)
  let note (d : Directive) : Stmt := .item (.directive d default)
  [note (.romBank 0 (some 4)), note (.romOrg 0x8000 none), line .nop, note .romEnd,
   note (.romOrg second none), line .rts, note .romEnd,
   note (.romBank 1 none), note (.romOrg 0xC000 none), line .brk]

/-- With a gap of one byte the bank has four bytes in the file, and its addresses fit into it. -/
theorem nearRegions_filled :
    ∃ image bank lo hi, layout { cpu := .nmos } (twoRegions 0x8002) = .ok image ∧
      bank ∈ image.banks ∧ bank.maxsize = some 4 ∧ bank.Maps lo hi ∧ bank.bytes.length = 4 ∧
      hi - lo ≤ 4 := by
  -- The layout is evaluated once, and the bank is read off the image.
  have evaluated : (layout { cpu := .nmos } (twoRegions 0x8002)).toOption.map (fun image =>
      image.banks.map fun bank => (bank.maxsize, bank.regions.isEmpty, bank.bytes.length)) =
        some [(some 4, false, 4), (none, false, 1)] := by
    cbv
  obtain ⟨image, returned, banks⟩ := Layout.exists_of_evaluated evaluated
  obtain ⟨bank, rest, listed, seen, -⟩ := List.map_eq_cons_iff.1 banks
  simp only [Prod.mk.injEq] at seen
  obtain ⟨sized, present, length⟩ := seen
  have inside : bank ∈ image.banks := by simp [listed]
  obtain ⟨lo, hi, maps, -, fits, -⟩ :=
    sized_bank_filled_iff returned inside sized (by simpa using present)
  exact ⟨image, bank, lo, hi, returned, inside, sized, maps, length, fits.1 length⟩

/-- With a gap of seven bytes the regions together still fit into the bank, but it has nine bytes in
the file, and so the bank behind it does not start where its size says. -/
theorem farRegions_overlong :
    ∃ image bank, layout { cpu := .nmos } (twoRegions 0x8008) = .ok image ∧ bank ∈ image.banks ∧
      bank.maxsize = some 4 ∧ bank.regions ≠ [] ∧ bank.used = 2 ∧ bank.bytes.length = 9 ∧
      image.bytes = bank.bytes ++ [0x00] := by
  -- The layout is evaluated once, together with the bytes of the image.
  have evaluated : (layout { cpu := .nmos } (twoRegions 0x8008)).toOption.map (fun image =>
      (image.banks.map fun bank => (bank.maxsize, bank.used, bank.bytes), image.bytes)) =
        some ([(some 4, 2, [0xEA, 0xFF, 0xFF, 0xFF, 0xFF, 0xFF, 0xFF, 0xFF, 0x60]),
          (none, 1, [0x00])], [0xEA, 0xFF, 0xFF, 0xFF, 0xFF, 0xFF, 0xFF, 0xFF, 0x60, 0x00]) := by
    cbv
  obtain ⟨image, returned, computed⟩ := Layout.exists_of_evaluated evaluated
  obtain ⟨banks, joined⟩ := Prod.mk.inj computed
  obtain ⟨bank, rest, listed, seen, -⟩ := List.map_eq_cons_iff.1 banks
  simp only [Prod.mk.injEq] at seen
  obtain ⟨sized, used, bytes⟩ := seen
  refine ⟨image, bank, returned, by simp [listed], sized, ?_, used, by simp [bytes], ?_⟩
  · -- A bank without regions has no bytes to count.
    intro empty
    simp [BankImage.used, empty] at used
  · rw [joined, bytes]
    rfl

end CrossAsm
