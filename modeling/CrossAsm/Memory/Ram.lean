import CrossAsm.Word

/-! RAM: the first free run that is large enough takes a variable. Where bytes end is a sum of words,
so bytes of which there are more than words seem to end before they start. -/

namespace CrossAsm

/-- A run of addresses, both ends included. -/
structure Section where
  /-- The first address. -/
  start : Nat
  /-- The last address. -/
  stop : Nat
  /-- Whether the run is taken. -/
  taken : Bool
  deriving DecidableEq

namespace Section

/-- Whether the run is free and has room for a number of bytes inside a window. -/
def fits (run : Section) (start stop size : Nat) : Bool :=
  !run.taken && Word.last (max run.start start) size ≤ min run.stop stop

/-- The run with a part of it taken, and what is left free on both sides. -/
def carve (run : Section) (address size : Nat) : List Section :=
  -- Only parts that hold at least one address are kept.
  let last := Word.last address size
  (if run.start < address then [⟨run.start, address - 1, false⟩] else []) ++
  [⟨address, last, true⟩] ++
  (if last < run.stop then [⟨last + 1, run.stop, false⟩] else [])

end Section

/-- The map of RAM: runs in the order of their addresses. Windows all draw from one map, in which
every run that is placed is entered. -/
structure Ram where
  /-- The runs. -/
  sections : List Section

namespace Ram

/-- A map that is free from the first address to the last. -/
def free (start stop : Nat) : Ram :=
  ⟨[⟨start, stop, false⟩]⟩

/-- The map of the whole address space. -/
def whole : Ram :=
  free 0x0000 0xFFFF

/-- Places bytes in the first run that fits, and gives the address and the runs after it. -/
def placeIn (start stop size : Nat) : List Section → Option (Nat × List Section)
  | [] => none
  | run :: others =>
    if run.fits start stop size then
      -- The lowest address in both the run and the window is taken.
      let address := max run.start start
      some (address, run.carve address size ++ others)
    else
      (placeIn start stop size others).map fun (address, rest) => (address, run :: rest)

/-- Places bytes, at least one, inside a window with both ends included. -/
def place (ram : Ram) (start stop size : Nat) : Option (Nat × Ram) :=
  (placeIn start stop (max size 1) ram.sections).map fun (address, sections) =>
    (address, ⟨sections⟩)

end Ram

end CrossAsm
