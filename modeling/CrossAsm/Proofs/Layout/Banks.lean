import CrossAsm.Proofs.Image.MemoryMap
import CrossAsm.Proofs.Memory.Capacity

/-! The banks that layout leaves. Every statement of the walk is a chain of steps on the banks, so that
what the steps keep holds at the end of it: the regions of every bank of an image share no address. -/

namespace CrossAsm.Layout

variable {session : Session} {state state' : Layout}

/-! ### The walk as steps on the banks -/

/-- Every statement of the walk takes steps on the banks. -/
theorem Step.moved {s : Stmt} (step : Step session state s state') (separate : state.rom.Separate) :
    state.rom.Moved state'.rom := by
  -- Where an item is tried, its bytes are one step more behind those that reserved them.
  have tries : ∀ {item : Deferred} {middle : Layout}, state.rom.Moved middle.rom →
      retry session item middle = .ok () state' → state.rom.Moved state'.rom :=
    fun grown tried => retry_rom tried grown fun wrote =>
      grown.trans (Rom.writeAt_moved (grown.separate separate).keyed wrote)
  cases step with
  | begin | finish | fixed | free | openWindow | closeWindow => exact .refl
  | label asked => exact (Rom.address_attempt _).moved separate.keyed (.inl ⟨_, asked⟩)
  | instruction _ _ reserved tried =>
    exact tries ((Rom.reserve_attempt _ _).moved separate.keyed (.inl ⟨_, reserved⟩)) tried
  | filled _ _ _ reserved _ tried =>
    exact tries ((Rom.reserve_attempt _ _).moved separate.keyed (.inl ⟨_, reserved⟩)) tried
  | request _ ran => exact Rom.Request.moved separate ran
  | incbin wrote => exact (Rom.write_attempt _ _).moved separate.keyed (.inl ⟨_, wrote⟩)
  | vector tried => exact tries .refl tried

/-- So does the whole walk. -/
theorem walk_moved {stmts : List Stmt} (separate : state.rom.Separate)
    (ran : walk session stmts state = .ok () state') : state.rom.Moved state'.rom := by
  -- By induction on the statements; the steps of the first keep the regions apart for the others.
  induction stmts generalizing state with
  | nil =>
    rw [walk, pure_eq_ok] at ran
    exact ran.2 ▸ .refl
  | cons first others ih =>
    simp only [walk, bind_eq_ok] at ran
    obtain ⟨_, next, stepped, ran⟩ := ran
    have moved := (stmt_step stepped).moved separate
    exact moved.trans (ih (moved.separate separate) ran)

/-! ### The banks of an image -/

/-- A region has as many bytes in the image as it takes in its bank. -/
theorem length_finish (region : Buffer) : region.finish.length = region.extent := by
  -- A byte is written for each address of the extent.
  rw [Buffer.finish_eq, List.length_map, List.length_range]

/-- A region has the same addresses in the image. -/
theorem range_regionImage (region : Buffer) : (regionImage region).range = region.range := by
  -- The image starts where the region does and is as long.
  rw [RegionImage.range, regionImage, length_finish]
  rfl

/-- The regions of a bank that layout leaves share no address. -/
theorem regions_disjoint {stmts : List Stmt} {image : Image}
    (returned : layout session stmts = .ok image) {bank : BankImage} (inside : bank ∈ image.banks) :
    (bank.regions.map RegionImage.range).Pairwise Disjoint := by
  -- The regions are apart at the end of the walk, and stay so while they are closed and filled in.
  obtain ⟨last, ran, rfl⟩ := layout_eq_ok.1 returned
  simp only [run, bind_eq_ok, onRom_eq_ok] at ran
  obtain ⟨_, final, walked, _, _, ⟨rom, closed, rfl⟩, settled⟩ := ran
  have tracks := walk_tracks (Tracks.start session) walked
  -- At the end of the walk the closed regions are apart, and then all are closed.
  have apart := (walk_moved Rom.separate_empty walked).separate Rom.separate_empty
  obtain ⟨moved, shut⟩ := Rom.closeAll_moved apart closed
  have separate := moved.separate apart
  -- The rounds after it change bytes only.
  obtain ⟨keyed, seen⟩ := Rom.closeAll_run tracks.keyed closed
  have kept := tracks.keeps (.refl _) (Rom.keeps_of_view keyed seen)
  have outline := (settle_settled settled kept).1.outline
  obtain ⟨⟨key, made⟩, there, rfl⟩ := List.mem_map.1 inside
  have listed : (key, made.number, made.maxsize, made.regions.map Buffer.blanked) ∈ rom.outline :=
    outline ▸ List.mem_map.2 ⟨(key, made), there, rfl⟩
  obtain ⟨⟨key', old⟩, there', same⟩ := List.mem_map.1 listed
  have regions : old.regions.map Buffer.blanked = made.regions.map Buffer.blanked :=
    (Prod.mk.inj (Prod.mk.inj (Prod.mk.inj same).2).2).2
  have found := Entries.get?_of_mem separate.keyed.distinct there'
  have disjoint := (separate.apart found).disjoint
  rw [← shut.regions_eq found] at disjoint
  -- Where a region lies does not depend on its bytes.
  have ranges : ∀ regions : List Buffer,
      regions.map Buffer.range = (regions.map Buffer.blanked).map Buffer.range := by
    intro regions
    simp [Buffer.range_blanked]
  have images : ((bankImage made).regions.map RegionImage.range) = made.regions.map Buffer.range := by
    simp [bankImage, range_regionImage]
  rw [images, ranges, ← regions, ← ranges]
  exact disjoint

end CrossAsm.Layout
