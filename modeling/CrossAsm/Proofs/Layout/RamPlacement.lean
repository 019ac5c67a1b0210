import Mathlib
import CrossAsm.Proofs.Layout.Steps
import CrossAsm.Proofs.Layout.TwoPass
import CrossAsm.Proofs.Memory.FirstFit

/-! Variables in RAM. One map serves all windows, and what is placed from a window is entered in it,
so that no variable placed so shares a byte with one that was placed so before. A variable with an
address of its own is bound there and not entered in the map: what is placed later is clear of it if it
lies outside the window. A variable of nearly as many bytes as there are words is not looked at. -/

namespace CrossAsm

/-! ### Variables as they are declared -/

/-- The bytes that a variable occupies. -/
def Placement.bytes (record : Placement) : Set Nat :=
  Set.Ico record.address.toNat (record.address.toNat + record.size)

/-- A variable without initial contents, and the window that is open where it is declared. -/
structure RamVariable where
  /-- The variable. -/
  var : Variable
  /-- The first and the last address of the window. -/
  window : Option (Nat × Nat)

namespace Stmt

/-- The variable that a statement declares, unless it has initial contents. -/
def ramVariable? (window : Option (Nat × Nat)) : Stmt → Option RamVariable
  | .item (.var var) => if var.init.isSome then none else some ⟨var, window⟩
  | _ => none

end Stmt

/-- The variables without initial contents, in the order they are declared. -/
def ramVariables : Option (Nat × Nat) → List Stmt → List RamVariable
  | _, [] => []
  | window, first :: others =>
    (first.ramVariable? window).toList ++ ramVariables (first.windowBehind window) others

/-- A place that a variable may have: under its name, of its size, and inside the window unless the
variable has an address of its own. -/
structure RamVariable.Takes (declared : RamVariable) (record : Placement) : Prop where
  /-- The record has the variable's full name. -/
  name : record.name = declared.var.key
  /-- The record has the variable's size. -/
  size : declared.var.size = some record.size
  /-- Without an address of its own the variable lies in the window. -/
  inside : declared.var.address = none →
    ∃ start stop, declared.window = some (start, stop) ∧ record.bytes ⊆ Set.Icc start stop

/-- Whether the bytes of a variable, if it has no address of its own, end before the words start again
from zero, wherever they begin. -/
def RamVariable.Ends (declared : RamVariable) : Prop :=
  declared.var.address = none → ∀ size ∈ declared.var.size, 0xFFFF + size ≤ Word.count

/-- A variable without an address of its own shares no byte with an earlier one that has none either,
nor with one that lies outside the window. -/
def KeepsClear (early late : RamVariable × Placement) : Prop :=
  late.1.var.address = none →
    (early.1.var.address = none ∨
      ∀ start stop, late.1.window = some (start, stop) →
        Disjoint early.2.bytes (Set.Icc start stop)) →
    Disjoint early.2.bytes late.2.bytes

namespace Layout

variable {session : Session} {state state' : Layout} {entries : List (RamVariable × Placement)}

/-! ### The map of RAM in the midst of the walk -/

/-- The run of a variable in the map, which is of one byte at least. -/
def runOf (record : Placement) : Section :=
  ⟨record.address.toNat, record.address.toNat + max record.size 1 - 1, true⟩

/-- The run of a variable that is entered in the map. -/
def runOf? (entry : RamVariable × Placement) : Option Section :=
  if entry.1.var.address = none then some (runOf entry.2) else none

/-- The bytes of a variable lie in its run. -/
theorem holds_runOf {record : Placement} {x : Nat} (inside : x ∈ record.bytes) :
    (runOf record).Holds x := by
  -- A run is given by its first and its last byte.
  obtain ⟨low, high⟩ := inside
  refine ⟨low, ?_⟩
  simp only [runOf]
  omega

/-- What holds of the variables met so far, each with its record. -/
structure Charted (state : Layout) (entries : List (RamVariable × Placement)) : Prop where
  /-- The records are those of the state. -/
  records : state.placed = entries.map Prod.snd
  /-- An open window starts in the address space. -/
  opens : ∀ ends ∈ state.window, ends.1 < addressSpace
  /-- The map holds the variables without an address of their own, and nothing else. -/
  sound : Ram.Sound 0x0000 0xFFFF (state.ram, entries.filterMap runOf?)
  /-- Each record is one that its variable may have. -/
  takes : ∀ entry ∈ entries, entry.1.Takes entry.2
  /-- No variable that was placed from a window lies on an earlier one. -/
  clear : entries.Pairwise KeepsClear

/-- A step that changes neither the map nor the records keeps the chart. -/
theorem Charted.kept (charted : state.Charted entries) (ram : state'.ram = state.ram)
    (placed : state'.placed = state.placed)
    (opens : ∀ ends ∈ state'.window, ends.1 < addressSpace) : state'.Charted entries := by
  -- Soundness is about the map, and the chart is about the records.
  refine ⟨placed.trans charted.records, opens, ?_, charted.takes, charted.clear⟩
  rw [ram]
  exact charted.sound

/-- One more variable is put on record. -/
theorem Charted.add {declared : RamVariable} {record : Placement} (charted : state.Charted entries)
    (records : state'.placed = state.placed ++ [record]) (window : state'.window = state.window)
    (sound : Ram.Sound 0x0000 0xFFFF
      (state'.ram, entries.filterMap runOf? ++ (runOf? (declared, record)).toList))
    (takes : declared.Takes record)
    (clear : ∀ early ∈ entries, KeepsClear early (declared, record)) :
    state'.Charted (entries ++ [(declared, record)]) := by
  -- The record goes behind the others, and so does its run, if it has one.
  refine ⟨?_, window ▸ charted.opens, ?_, ?_, ?_⟩
  · rw [records, charted.records, List.map_append]
    rfl
  · have last : List.filterMap runOf? [(declared, record)] =
        (runOf? (declared, record)).toList := by
      cases entered : runOf? (declared, record) <;> simp [entered]
    rw [List.filterMap_append, last]
    exact sound
  · intro entry inside
    rcases List.mem_append.1 inside with before | here
    · exact charted.takes entry before
    · rw [List.mem_singleton.1 here]
      exact takes
  · refine List.pairwise_append.2 ⟨charted.clear, List.pairwise_singleton _ _, ?_⟩
    intro early before late here
    rw [List.mem_singleton.1 here]
    exact clear early before

/-! ### One statement -/

/-- Behind a statement an open window starts in the address space if it did so before. -/
theorem Step.window {s : Stmt} (step : Step session state s state') :
    state'.window = s.windowBehind state.window ∧
      ((∀ ends ∈ state.window, ends.1 < addressSpace) →
        ∀ ends ∈ state'.window, ends.1 < addressSpace) := by
  -- Only a directive opens a window or closes it, and what is opened was looked at.
  cases step with
  | openWindow within =>
    rename_i address maxsize pos
    refine ⟨rfl, fun _ ends isOpen => ?_⟩
    cases maxsize <;> (cases isOpen; exact within)
  | closeWindow pos => exact ⟨rfl, fun _ ends isOpen => nomatch isOpen⟩
  | instruction _ _ _ tried | filled _ _ _ _ _ tried | vector tried =>
    have same := (retry_rests tried).window
    exact ⟨same, fun opens => same ▸ opens⟩
  | request requested ran =>
    rename_i d pos request rom
    refine ⟨?_, id⟩
    cases d with
    | ramOrg | ramEnd => cases requested
    | _ => rfl
  | _ => exact ⟨rfl, id⟩

/-- A free place is one at which the bytes lie in the window and on nothing that is entered in the
map, and they are entered there; no address is cut off. -/
theorem Charted.place (charted : state.Charted entries) (name : String)
    {start stop size place : Nat} {ram : Ram} (isOpen : state.window = some (start, stop))
    (ends : 0xFFFF + size ≤ Word.count)
    (found : state.ram.place start stop size = some (place, ram)) :
    let record : Placement := ⟨name, UInt16.ofNat place, size⟩
    Ram.Request.Suits ⟨start, stop, size⟩ 0x0000 0xFFFF (entries.filterMap runOf?)
        record.address.toNat ∧
      Ram.Sound 0x0000 0xFFFF (ram, entries.filterMap runOf? ++ [runOf record]) := by
  -- The window lies in the address space, so that the request ends among the words.
  let request : Ram.Request := ⟨start, stop, size⟩
  have within : start < addressSpace := charted.opens _ isOpen
  have last : request.Ends 0xFFFF := by
    simp only [Ram.Request.Ends, addressSpace, Word.count, request] at within ends ⊢
    omega
  have suits : request.Suits 0x0000 0xFFFF (entries.filterMap runOf?) place :=
    (charted.sound.isLeast last found).1
  have entered : Ram.Sound 0x0000 0xFFFF
      (ram, entries.filterMap runOf? ++ [request.runAt place]) :=
    charted.sound.placed last found
  -- The bytes end in the address space, and so the place is an address.
  have whole : (UInt16.ofNat place).toNat = place := by
    have below : place + max size 1 - 1 ≤ 0xFFFF := suits.below
    have width : UInt16.size = 0x10000 := rfl
    apply UInt16.toNat_ofNat_of_lt'
    omega
  refine ⟨?_, ?_⟩
  · rw [whole]
    exact suits
  · rw [runOf, whole]
    exact entered

/-- Every statement keeps the chart of RAM, with the variable that it declares. -/
theorem Step.charted {s : Stmt} (step : Step session state s state')
    (charted : state.Charted entries)
    (ends : ∀ declared ∈ s.ramVariable? state.window, declared.Ends) :
    ∃ later, later.map Prod.fst = (s.ramVariable? state.window).toList ∧
      state'.Charted (entries ++ later) := by
  -- A statement that changes neither the map nor the records declares nothing there.
  have passed : s.ramVariable? state.window = none → state'.ram = state.ram →
      state'.placed = state.placed → ∃ later,
        later.map Prod.fst = (s.ramVariable? state.window).toList ∧
          state'.Charted (entries ++ later) := by
    intro none ram placed
    refine ⟨[], by simp [none], ?_⟩
    rw [List.append_nil]
    exact charted.kept ram placed (step.window.2 charted.opens)
  cases step with
  | fixed plain sized given known fresh =>
    rename_i var e size address
    let record : Placement := ⟨var.key, address, size⟩
    refine ⟨[(⟨var, state.window⟩, record)], by simp [Stmt.ramVariable?, plain], ?_⟩
    refine charted.add rfl rfl ?_ ⟨rfl, sized, ?_⟩ ?_
    · -- The variable is not entered in the map.
      simpa [runOf?, given] using charted.sound
    · -- It has an address, and so it is not one of those that are placed freely.
      exact fun free => absurd (given.symm.trans free) nofun
    · exact fun early before free => absurd (given.symm.trans free) nofun
  | free plain sized given isOpen found fresh =>
    rename_i var size start stop place ram
    let record : Placement := ⟨var.key, UInt16.ofNat place, size⟩
    -- The last byte that could be granted does not wrap around.
    have last : 0xFFFF + size ≤ Word.count :=
      ends ⟨var, state.window⟩ (by simp [Stmt.ramVariable?, plain]) given size sized
    obtain ⟨suits, sound⟩ := charted.place var.key isOpen last found
    have inside : record.bytes ⊆ Set.Icc start stop := by
      intro x within
      have low : start ≤ record.address.toNat := suits.opens
      have high : record.address.toNat + max size 1 - 1 ≤ stop := suits.closes
      obtain ⟨above, below⟩ := holds_runOf within
      exact ⟨Nat.le_trans low above, Nat.le_trans below high⟩
    refine ⟨[(⟨var, state.window⟩, record)], by simp [Stmt.ramVariable?, plain], ?_⟩
    refine charted.add rfl rfl ?_ ⟨rfl, sized, fun _ => ⟨start, stop, isOpen, inside⟩⟩ ?_
    · -- The variable is entered in the map as it was placed.
      simpa [runOf?, given] using sound
    · intro early before _ either
      rcases either with free | outside
      · -- The earlier variable is entered in the map, and the bytes meet nothing there.
        have entered : runOf early.2 ∈ entries.filterMap runOf? :=
          List.mem_filterMap.2 ⟨early, before, by rw [runOf?, if_pos free]⟩
        refine Set.disjoint_left.2 fun x first second => ?_
        exact suits.alone _ entered ⟨x, holds_runOf second, holds_runOf first⟩
      · -- An earlier variable with an address lies outside of the window.
        exact (outside start stop isOpen).mono_right inside
  | filled filled _ _ _ _ tried =>
    -- Bytes in ROM are none of RAM.
    have rests := retry_rests tried
    exact passed (if_pos filled) rests.ram rests.placed
  | instruction _ _ _ tried | vector tried =>
    have rests := retry_rests tried
    exact passed rfl rests.ram rests.placed
  | _ => exact passed rfl rfl rfl

/-- The whole walk keeps the chart of RAM, with the variables that it declares. -/
theorem walk_charted {stmts : List Stmt} (charted : state.Charted entries)
    (ends : ∀ declared ∈ ramVariables state.window stmts, declared.Ends)
    (ran : walk session stmts state = .ok () state') :
    ∃ later, later.map Prod.fst = ramVariables state.window stmts ∧
      state'.Charted (entries ++ later) := by
  -- By induction on the statements; each of them finds the window that those before it leave.
  induction stmts generalizing state entries with
  | nil =>
    rw [walk, pure_eq_ok] at ran
    refine ⟨[], rfl, ?_⟩
    rw [List.append_nil, ← ran.2]
    exact charted
  | cons first others ih =>
    simp only [walk, bind_eq_ok] at ran
    obtain ⟨_, next, stepped, ran⟩ := ran
    have step := stmt_step stepped
    simp only [ramVariables, List.mem_append, Option.mem_toList] at ends
    obtain ⟨here, declared, charted'⟩ := step.charted charted fun _ found => ends _ (.inl found)
    rw [← step.window.1] at ends
    obtain ⟨later, rest, charted''⟩ := ih charted' (fun _ found => ends _ (.inr found)) ran
    refine ⟨here ++ later, ?_, ?_⟩
    · rw [List.map_append, declared, rest, step.window.1]
      rfl
    · rw [← List.append_assoc]
      exact charted''

/-- Before the walk the map of RAM is free. -/
theorem charted_start : Charted {} [] :=
  ⟨rfl, nofun, Ram.served_sound (Nat.zero_le 0xFFFF) [] (List.forall_mem_nil _),
    List.forall_mem_nil _, .nil⟩

end Layout

/-- Whatever layout returns has one record for each variable without initial contents, in the order
of their declarations, as long as no variable is so large that its last byte starts again from zero.
A variable without an address of its own lies in the window that is open where it is declared. There
it shares no byte with an earlier variable that was placed from a window, nor with one at an address
of its own outside that window. -/
theorem ram_variables_clear {session : Session} {stmts : List Stmt} {image : Image}
    (ends : ∀ declared ∈ ramVariables none stmts, declared.Ends)
    (returned : layout session stmts = .ok image) :
    (ramVariables none stmts).length = image.ram.length ∧
      (∀ entry ∈ (ramVariables none stmts).zip image.ram, entry.1.Takes entry.2) ∧
      ((ramVariables none stmts).zip image.ram).Pairwise KeepsClear := by
  -- The walk pairs each variable with its record, and the pairs are those of the image.
  obtain ⟨last, ran, rfl⟩ := Layout.layout_eq_ok.1 returned
  obtain ⟨final, assembled⟩ := Layout.run_assembled ran
  obtain ⟨entries, declared, charted⟩ := Layout.walk_charted Layout.charted_start ends assembled.walked
  rw [List.nil_append] at charted
  -- The rounds behind the walk leave the records, so that the entries are those of the image.
  have records : entries.map Prod.snd = last.image.ram :=
    charted.records.symm.trans assembled.records.1.symm
  have zipped : (ramVariables none stmts).zip last.image.ram = entries :=
    (List.zip_of_prod declared records).symm
  rw [zipped]
  refine ⟨?_, charted.takes, charted.clear⟩
  rw [← declared, ← records, List.length_map, List.length_map]

/-- Three bytes without initial contents, the first one at an address of its own and the others from a
window of sixteen bytes. -/
def fixedAndFree (address : Int64) : List Stmt :=
  let byte (name : String) (address : Option Expr) : Stmt :=
    .item (.var ⟨"byte", name, false, .scalar, address, none, .global, some 1, default⟩)
  [byte "x" (some (.number address)), .item (.directive (.ramOrg 0x10 (some 0x10)) default),
   byte "y" none, byte "z" none]

/-- With the first one right behind the window, the second shares no byte with it, and the third
shares none with the second. -/
theorem fixedOutside_clear :
    ∃ image, layout { cpu := .nmos } (fixedAndFree 0x20) = .ok image ∧
      image.ram = [⟨"x", 0x20, 1⟩, ⟨"y", 0x10, 1⟩, ⟨"z", 0x11, 1⟩] ∧
      Disjoint (Placement.bytes ⟨"x", 0x20, 1⟩) (Placement.bytes ⟨"y", 0x10, 1⟩) ∧
      Disjoint (Placement.bytes ⟨"y", 0x10, 1⟩) (Placement.bytes ⟨"z", 0x11, 1⟩) := by
  -- The records are evaluated, and the pairs are taken from the theorem.
  have evaluated : (layout { cpu := .nmos } (fixedAndFree 0x20)).toOption.map Image.ram =
      some [⟨"x", 0x20, 1⟩, ⟨"y", 0x10, 1⟩, ⟨"z", 0x11, 1⟩] := by
    decide +kernel
  obtain ⟨image, returned, records⟩ := Layout.exists_of_evaluated evaluated
  have ends : ∀ declared ∈ ramVariables none (fixedAndFree 0x20), declared.Ends := by
    simp [fixedAndFree, ramVariables, Stmt.ramVariable?, RamVariable.Ends, Word.count]
  obtain ⟨-, -, clear⟩ := ram_variables_clear ends returned
  rw [records] at clear
  -- The last two have no address of their own, and the first one lies behind the window.
  obtain ⟨behindX, rest⟩ := List.pairwise_cons.1 clear
  obtain ⟨behindY, -⟩ := List.pairwise_cons.1 rest
  refine ⟨image, returned, records, behindX _ (.head _) rfl (.inr ?_),
    behindY _ (.head _) rfl (.inl rfl)⟩
  intro start stop isOpen
  obtain ⟨rfl, rfl⟩ := Prod.mk.inj (Option.some.inj isOpen)
  exact Set.disjoint_left.2 fun x fixed window => absurd window.2 (Nat.not_le.2 fixed.1)

/-- With the first one at the start of the window, the second is placed on its very byte. -/
theorem fixedInside_shared :
    ∃ image, layout { cpu := .nmos } (fixedAndFree 0x10) = .ok image ∧
      image.ram = [⟨"x", 0x10, 1⟩, ⟨"y", 0x10, 1⟩, ⟨"z", 0x11, 1⟩] ∧
      ¬ Disjoint (Placement.bytes ⟨"x", 0x10, 1⟩) (Placement.bytes ⟨"y", 0x10, 1⟩) := by
  -- The records are evaluated; the byte they share is the first one of both.
  have evaluated : (layout { cpu := .nmos } (fixedAndFree 0x10)).toOption.map Image.ram =
      some [⟨"x", 0x10, 1⟩, ⟨"y", 0x10, 1⟩, ⟨"z", 0x11, 1⟩] := by
    decide +kernel
  obtain ⟨image, returned, records⟩ := Layout.exists_of_evaluated evaluated
  refine ⟨image, returned, records, fun disjoint => ?_⟩
  have byte : 0x10 ∈ Placement.bytes ⟨"x", 0x10, 1⟩ := ⟨by decide, by decide⟩
  exact Set.disjoint_left.1 disjoint byte byte

end CrossAsm
