import Mathlib.Data.List.Chain
import Mathlib.Order.Bounds.Basic
import CrossAsm.Memory.Ram

/-! First fit. Whatever was asked for before, the map of RAM is tiled by runs of which no two free
ones touch. So bytes that are free side by side lie in one run, and the first run with room for a
request has the lowest address at which its bytes are free. All this holds as long as no request is for
so many bytes that its last address starts again from zero. -/

namespace CrossAsm

namespace Section

/-- Whether an address lies in a run. -/
def Holds (run : Section) (x : Nat) : Prop :=
  run.start ≤ x ∧ x ≤ run.stop

/-- Whether two runs share an address. -/
def Meets (run other : Section) : Prop :=
  ∃ x, run.Holds x ∧ other.Holds x

/-- Two runs that are not both free. -/
def Apart (run other : Section) : Prop :=
  run.taken = true ∨ other.taken = true

/-- Runs without a gap between them, from a first address up to the one that follows them. -/
def Tiles : Nat → Nat → List Section → Prop
  | first, next, [] => first = next
  | first, next, run :: others =>
    run.start = first ∧ run.start ≤ run.stop ∧ Tiles (run.stop + 1) next others

/-- Whether an address lies in a run that is taken. -/
def Occupied (sections : List Section) (x : Nat) : Prop :=
  ∃ run ∈ sections, run.taken = true ∧ run.Holds x

variable {first next x address size start stop : Nat} {run : Section}
  {before behind sections : List Section}

/-! ### Runs side by side -/

/-- Tiles behind tiles. -/
theorem tiles_append : Tiles first next (before ++ behind) ↔
    ∃ middle, Tiles first middle before ∧ Tiles middle next behind := by
  -- By induction on the tiles in front, which lead to the middle.
  induction before generalizing first with
  | nil => simp [Tiles]
  | cons run others ih =>
    simp only [List.cons_append, Tiles, ih]
    constructor
    · rintro ⟨starts, order, middle, early, late⟩
      exact ⟨middle, ⟨starts, order, early⟩, late⟩
    · rintro ⟨middle, ⟨starts, order, early⟩, late⟩
      exact ⟨starts, order, middle, early, late⟩

/-- Tiles do not end before they start. -/
theorem Tiles.le (tiles : Tiles first next sections) : first ≤ next := by
  -- By induction on the tiles.
  induction sections generalizing first with
  | nil => exact Nat.le_of_eq tiles
  | cons run others ih =>
    obtain ⟨rfl, order, rest⟩ := tiles
    have := ih rest
    omega

/-- Every tile lies between the ends. -/
theorem Tiles.bounds (tiles : Tiles first next sections) (inside : run ∈ sections) :
    first ≤ run.start ∧ run.stop < next := by
  -- By induction on the tiles, each of which starts where the one before ended.
  induction sections generalizing first with
  | nil => cases inside
  | cons head others ih =>
    obtain ⟨rfl, order, rest⟩ := tiles
    rcases List.mem_cons.1 inside with rfl | later
    · exact ⟨Nat.le_refl _, rest.le⟩
    · have := ih rest later
      omega

/-- No address lies in two tiles. -/
theorem Tiles.unique (tiles : Tiles first next sections) {other : Section} (one : run ∈ sections)
    (two : other ∈ sections) (holds : run.Holds x) (holds' : other.Holds x) : run = other := by
  -- By induction on the tiles; both are the first one, both are later, or one is later.
  obtain ⟨low, high⟩ := holds
  obtain ⟨low', high'⟩ := holds'
  induction sections generalizing first with
  | nil => cases one
  | cons head others ih =>
    obtain ⟨rfl, order, rest⟩ := tiles
    -- Whatever stands behind the first one starts behind its end.
    rcases List.mem_cons.1 one with rfl | early
    · rcases List.mem_cons.1 two with rfl | late
      · rfl
      · have := rest.bounds late
        omega
    · rcases List.mem_cons.1 two with rfl | late
      · have := rest.bounds early
        omega
      · exact ih rest early late

/-- Runs are occupied where one part of them is. -/
theorem occupied_append :
    Occupied (before ++ behind) x ↔ Occupied before x ∨ Occupied behind x := by
  -- An address is held by a run of one part or of the other.
  simp only [Occupied, List.mem_append, or_and_right, exists_or]

/-- A free run occupies nothing. -/
theorem occupied_cons (isFree : run.taken = false) :
    Occupied (run :: behind) x ↔ Occupied behind x := by
  -- A free run is not taken, whatever it holds.
  simp [Occupied, isFree]

/-- Free bytes side by side lie in one free run, since the run behind a free one is taken. -/
theorem exists_free_run (tiles : Tiles first next sections) (apart : sections.IsChain Apart)
    (positive : 0 < size) (low : first ≤ address) (high : address + size ≤ next)
    (unoccupied : ∀ x, address ≤ x → x < address + size → ¬ Occupied sections x) :
    ∃ run ∈ sections, run.taken = false ∧ run.start ≤ address ∧
      address + size - 1 ≤ run.stop := by
  -- The bytes start in the first run or behind it.
  induction sections generalizing first with
  | nil =>
    -- No run is left for the address.
    simp only [Tiles] at tiles
    omega
  | cons run others ih =>
    obtain ⟨rfl, order, rest⟩ := tiles
    -- The address lies in the first run, or behind it.
    by_cases here : address ≤ run.stop
    · have isFree : run.taken = false := by
        by_contra taken
        rw [Bool.not_eq_false] at taken
        exact unoccupied address (Nat.le_refl _) (by omega)
          ⟨run, List.mem_cons_self .., taken, low, here⟩
      refine ⟨run, List.mem_cons_self .., isFree, low, ?_⟩
      -- If they went on behind it, they would lie in the run that follows, which is taken.
      by_contra beyond
      cases others with
      | nil =>
        simp only [Tiles] at rest
        omega
      | cons second others =>
        obtain ⟨follows, order', -⟩ := rest
        have taken : second.taken = true := by
          have either := (List.isChain_cons_cons.1 apart).1
          rcases either with taken | taken
          · rw [isFree] at taken
            cases taken
          · exact taken
        exact unoccupied (run.stop + 1) (by omega) (by omega)
          ⟨second, by simp, taken, by omega, by omega⟩
    · -- Behind the first run, the bytes lie in one of the others.
      obtain ⟨found, inside, isFree, bounds⟩ := ih rest apart.tail (by omega)
        fun x from_ upto occupied => unoccupied x from_ upto (by
          obtain ⟨run, inside, held⟩ := occupied
          exact ⟨run, List.mem_cons_of_mem _ inside, held⟩)
      exact ⟨found, List.mem_cons_of_mem _ inside, isFree, bounds⟩

/-! ### Taking a part of a run -/

/-- The parts of a run tile it. -/
theorem tiles_carve (ends : address + size ≤ Word.count) (positive : 0 < size)
    (low : run.start ≤ address) (high : address + size - 1 ≤ run.stop) :
    Tiles run.start (run.stop + 1) (run.carve address size) := by
  -- Each part starts behind the one before it, and what would be empty is left out.
  unfold carve
  simp only [Word.last_of_le ends]
  split <;> split <;>
    simp only [List.nil_append, List.append_nil, List.cons_append, Tiles, true_and, and_true] <;>
    omega

/-- Only the part that is taken out of a run is occupied. -/
theorem occupied_carve (ends : address + size ≤ Word.count) :
    Occupied (run.carve address size) x ↔ address ≤ x ∧ x ≤ address + size - 1 := by
  -- What is left in front of the part and behind it is free.
  unfold carve
  simp only [Word.last_of_le ends]
  split <;> split <;> simp [Occupied, Holds]

/-- Of the parts of a free run no two free ones touch, nor do they touch a free run around it. -/
theorem apart_carve (apart : (before ++ run :: behind).IsChain Apart)
    (isFree : run.taken = false) :
    (before ++ (run.carve address size ++ behind)).IsChain Apart := by
  -- The runs around a free one are taken.
  obtain ⟨early, late, joined⟩ := List.isChain_append.1 apart
  have takenBefore : ∀ other ∈ before.getLast?, other.taken = true := by
    intro other last
    rcases joined other last run rfl with taken | taken
    · exact taken
    · rw [isFree] at taken
      cases taken
  have takenBehind : ∀ other ∈ behind.head?, other.taken = true := by
    intro other head
    cases behind with
    | nil => cases head
    | cons second others =>
      obtain rfl : second = other := by simpa using head
      rcases (List.isChain_cons_cons.1 late).1 with taken | taken
      · rw [isFree] at taken
        cases taken
      · exact taken
  -- The middle part is taken, and so parts that are free do not touch.
  have parts : (run.carve address size).IsChain Apart := by
    unfold carve
    simp only
    split <;> split <;> simp [Apart]
  refine List.isChain_append.2 ⟨early, List.isChain_append.2 ⟨parts, late.tail, ?_⟩, ?_⟩
  · -- The last part meets the run behind, the first one the run in front; both of these are taken.
    exact fun _ _ other head => .inr (takenBehind other head)
  · exact fun other last _ _ => .inl (takenBefore other last)

/-- A run has room if and only if it is free and the lowest address in it and in the window leaves
enough of both. -/
theorem fits_iff (ends : max run.start start + size ≤ Word.count) :
    run.fits start stop size = true ↔ run.taken = false ∧
      max run.start start + size - 1 ≤ run.stop ∧ max run.start start + size - 1 ≤ stop := by
  -- The last byte of the request does not wrap around, and so it can be compared with both ends.
  simp only [fits, Word.last_of_le ends, Bool.and_eq_true, Bool.not_eq_true', decide_eq_true_eq,
    Nat.le_min]

/-- A free run that holds bytes inside the window has room. -/
theorem fits_of_holds (ends : max run.start start + size ≤ Word.count)
    (isFree : run.taken = false) (low : run.start ≤ address)
    (high : address + size - 1 ≤ run.stop) (from_ : start ≤ address)
    (upto : address + size - 1 ≤ stop) : run.fits start stop size = true := by
  -- The lowest address that both allow is no higher than where the bytes are.
  have first : max run.start start ≤ address := Nat.max_le.2 ⟨low, from_⟩
  exact (fits_iff ends).2 ⟨isFree, by omega, by omega⟩

end Section

open Section (Tiles Apart Occupied)

namespace Ram

variable {start stop size address : Nat} {sections later : List Section}

/-! ### One request -/

/-- Bytes are placed in the first run that has room, at the lowest address in it and in the
window. -/
theorem placeIn_eq_some (placed : placeIn start stop size sections = some (address, later)) :
    ∃ before run behind, sections = before ++ run :: behind ∧
      (∀ other ∈ before, other.fits start stop size = false) ∧
      run.fits start stop size = true ∧ address = max run.start start ∧
      later = before ++ (run.carve address size ++ behind) := by
  -- By induction on the runs; one without room is passed over as it is.
  induction sections generalizing address later with
  | nil => cases placed
  | cons run others ih =>
    rw [placeIn] at placed
    split at placed
    · rename_i fits
      cases placed
      exact ⟨[], run, others, rfl, nofun, fits, rfl, rfl⟩
    · rename_i full
      obtain ⟨⟨_, rest⟩, found, same⟩ := Option.map_eq_some_iff.1 placed
      cases same
      obtain ⟨before, chosen, behind, rfl, passed, fits, least, rfl⟩ := ih found
      refine ⟨run :: before, chosen, behind, rfl, ?_, fits, least, rfl⟩
      exact List.forall_mem_cons.2 ⟨by simpa using full, passed⟩

/-- A request for bytes inside a window with both ends included. -/
structure Request where
  /-- The first address of the window. -/
  start : Nat
  /-- The last address of the window. -/
  stop : Nat
  /-- The number of bytes; none count as one. -/
  size : Nat

/-- The bytes of a request if they are placed at an address. -/
def Request.runAt (request : Request) (address : Nat) : Section :=
  ⟨address, address + max request.size 1 - 1, true⟩

/-- Whether the bytes of a request end before the words start again from zero, wherever they begin
in the map or the window. -/
def Request.Ends (request : Request) (hi : Nat) : Prop :=
  max hi request.start + max request.size 1 ≤ Word.count

instance (request : Request) (hi : Nat) : Decidable (request.Ends hi) :=
  inferInstanceAs (Decidable (_ ≤ _))

/-- Whether the bytes of a request may be placed at an address: inside the window and the map, and
where none of the runs placed before are. -/
structure Request.Suits (request : Request) (lo hi : Nat) (placed : List Section)
    (address : Nat) : Prop where
  /-- They do not start before the window. -/
  opens : request.start ≤ address
  /-- They do not end behind the window. -/
  closes : (request.runAt address).stop ≤ request.stop
  /-- They do not start before the map. -/
  above : lo ≤ address
  /-- They do not end behind the map. -/
  below : (request.runAt address).stop ≤ hi
  /-- They meet nothing that was placed before. -/
  alone : ∀ other ∈ placed, ¬ (request.runAt address).Meets other

/-- The address that a request is given. -/
def answer (ram : Ram) (request : Request) : Option Nat :=
  (ram.place request.start request.stop request.size).map Prod.fst

/-- The map and the runs that were placed, after one more request. -/
def serve (state : Ram × List Section) (request : Request) : Ram × List Section :=
  match state.1.place request.start request.stop request.size with
  | some (address, ram) => (ram, state.2 ++ [request.runAt address])
  | none => state

/-- The map and the runs that were placed, after requests to a map that was free. -/
def served (lo hi : Nat) (requests : List Request) : Ram × List Section :=
  requests.foldl serve (free lo hi, [])

/-- What holds after any number of requests. -/
structure Sound (lo hi : Nat) (state : Ram × List Section) : Prop where
  /-- The runs tile the map. -/
  tiles : Tiles lo (hi + 1) state.1.sections
  /-- No two free runs touch. -/
  apart : state.1.sections.IsChain Apart
  /-- What is taken is what was placed. -/
  taken : ∀ x, Occupied state.1.sections x ↔ ∃ run ∈ state.2, run.Holds x

variable {lo hi : Nat} {state : Ram × List Section} {request : Request}

/-- Wherever the bytes of a request begin in a run of the map, they end before the words do. -/
theorem Sound.ends (sound : Sound lo hi state) (ends : request.Ends hi) {run : Section}
    (inside : run ∈ state.1.sections) :
    max run.start request.start + max request.size 1 ≤ Word.count := by
  -- The request keeps its bytes inside the words wherever in the map they begin.
  unfold Request.Ends at ends
  -- A run of the map does not start behind the map.
  have within : run.start ≤ hi := by
    obtain ⟨before, behind, split⟩ := List.append_of_mem inside
    obtain ⟨middle, -, rfl, order, -⟩ := Section.tiles_append.1 (split ▸ sound.tiles)
    have := sound.tiles.bounds inside
    omega
  omega

/-- Where bytes may be placed they are free, and free bytes lie in one run, which has room. -/
theorem Sound.exists_room (sound : Sound lo hi state) (ends : request.Ends hi)
    (suits : request.Suits lo hi state.2 address) :
    ∃ run ∈ state.1.sections, run.start ≤ address ∧
      run.fits request.start request.stop (max request.size 1) = true := by
  -- No address of the bytes is occupied, so that they lie in one free run.
  have closes : address + max request.size 1 - 1 ≤ request.stop := suits.closes
  have below : address + max request.size 1 - 1 ≤ hi := suits.below
  have unoccupied : ∀ x, address ≤ x → x < address + max request.size 1 →
      ¬ Occupied state.1.sections x := by
    intro x low high occupied
    obtain ⟨other, inside, held⟩ := (sound.taken x).1 occupied
    exact suits.alone other inside ⟨x, ⟨low, Nat.le_sub_one_of_lt high⟩, held⟩
  obtain ⟨run, inside, isFree, low, high⟩ :=
    Section.exists_free_run sound.tiles sound.apart (by omega) suits.above (by omega) unoccupied
  exact ⟨run, inside, low,
    Section.fits_of_holds (sound.ends ends inside) isFree low high suits.opens closes⟩

/-- A request is placed at the lowest address where its bytes may be. -/
theorem Sound.isLeast (sound : Sound lo hi state) (ends : request.Ends hi) {ram : Ram}
    (placed : state.1.place request.start request.stop request.size = some (address, ram)) :
    IsLeast {a | request.Suits lo hi state.2 a} address := by
  -- The bytes are placed in the first run that fits, and all runs before it do not.
  obtain ⟨⟨_, later⟩, found, same⟩ := Option.map_eq_some_iff.1 placed
  cases same
  obtain ⟨before, run, behind, split, passed, fits, rfl, -⟩ := placeIn_eq_some found
  have inside : run ∈ state.1.sections := by simp [split]
  obtain ⟨isFree, high, closes⟩ := (Section.fits_iff (sound.ends ends inside)).1 fits
  have bounds := sound.tiles.bounds inside
  -- The window opens no later, and the bytes end inside it.
  refine ⟨⟨Nat.le_max_right _ _, closes, ?_, ?_, ?_⟩, ?_⟩
  · -- The bytes lie inside the map.
    exact Nat.le_trans bounds.1 (Nat.le_max_left _ _)
  · exact Nat.le_trans high (Nat.le_of_lt_succ bounds.2)
  · -- What was placed is taken, but the run is free.
    rintro other listed ⟨x, ⟨above, below⟩, held⟩
    obtain ⟨full, there, isTaken, holds⟩ := (sound.taken x).2 ⟨other, listed, held⟩
    have holds' : run.Holds x :=
      ⟨Nat.le_trans (Nat.le_max_left _ _) above, Nat.le_trans below high⟩
    rw [sound.tiles.unique there inside holds holds', isFree] at isTaken
    cases isTaken
  · -- Any other address lies in a run with room, and those before this one have none.
    intro a suits
    obtain ⟨other, there, low, room⟩ := sound.exists_room ends suits
    refine Nat.max_le.2 ⟨?_, suits.opens⟩
    rw [split, List.mem_append, List.mem_cons] at there
    rcases there with early | rfl | late
    · -- An earlier run has no room, the run itself starts no earlier than the place, and a later
      -- one begins behind it.
      rw [passed other early] at room
      cases room
    · exact low
    · obtain ⟨middle, -, rfl, order, rest⟩ := Section.tiles_append.1 (split ▸ sound.tiles)
      have := rest.bounds late
      omega

/-- A request that is placed leaves the map sound. -/
theorem Sound.placed (sound : Sound lo hi state) (ends : request.Ends hi) {ram : Ram}
    (placed : state.1.place request.start request.stop request.size = some (address, ram)) :
    Sound lo hi (ram, state.2 ++ [request.runAt address]) := by
  -- The run that has room is carved into up to three, in its place.
  obtain ⟨⟨_, later⟩, found, same⟩ := Option.map_eq_some_iff.1 placed
  cases same
  obtain ⟨before, run, behind, split, -, fits, rfl, rfl⟩ := placeIn_eq_some found
  have last : max run.start request.start + max request.size 1 ≤ Word.count :=
    sound.ends ends (by simp [split])
  obtain ⟨isFree, high, -⟩ := (Section.fits_iff last).1 fits
  obtain ⟨tiles, apart, taken⟩ := sound
  rw [split] at tiles apart taken
  -- The parts of the run stand where the run stood.
  obtain ⟨middle, early, rfl, order, late⟩ := Section.tiles_append.1 tiles
  have parts := Section.tiles_carve last (by omega) (Nat.le_max_left run.start request.start) high
  refine ⟨?_, Section.apart_carve apart isFree, fun x => ?_⟩
  · exact Section.tiles_append.2 ⟨_, early, Section.tiles_append.2 ⟨_, parts, late⟩⟩
  · have old := taken x
    rw [Section.occupied_append, Section.occupied_cons isFree] at old
    have new : (request.runAt (max run.start request.start)).Holds x ↔ Occupied
        (run.carve (max run.start request.start) (max request.size 1)) x :=
      (Section.occupied_carve last).symm
    simp only [Section.occupied_append, List.mem_append, List.mem_singleton, or_and_right,
      exists_or, exists_eq_left, ← old, new]
    rw [or_right_comm, or_assoc]

/-- Every request leaves the map sound. -/
theorem Sound.serve (sound : Sound lo hi state) (ends : request.Ends hi) :
    Sound lo hi (Ram.serve state request) := by
  -- The request is placed or refused, and then the map stays.
  unfold Ram.serve
  split
  · rename_i placed
    exact sound.placed ends placed
  · exact sound

/-- A map that is free is sound, and so it is after any number of requests. -/
theorem served_sound (order : lo ≤ hi) (requests : List Request)
    (ends : ∀ request ∈ requests, request.Ends hi) : Sound lo hi (served lo hi requests) := by
  -- By induction on the requests, from the map that is one free run.
  have start : Sound lo hi (free lo hi, []) :=
    ⟨⟨rfl, order, rfl⟩, List.isChain_singleton _, fun x => by simp [Occupied, free]⟩
  exact requests.foldlRecOn _ start fun _ sound request asked => sound.serve (ends request asked)

end Ram

end CrossAsm
