import CrossAsm.Proofs.Memory.Separation

/-! A region as a partial map of bytes. Beside any sequence of requests runs a ledger of the space that
was handed out and of the bytes that were put down: the region holds at each offset the byte put down
there last, and the ledger says which offsets there are. -/

namespace CrossAsm.Buffer

variable {region region' : Buffer} {pos : Pos}

/-! ### When a request is granted -/

/-- Whether a region has room for a number of bytes behind those it has. -/
structure Admits (region : Buffer) (size : Nat) : Prop where
  /-- The size of the region is not exceeded. -/
  within : ∀ maxsize ∈ region.maxsize, region.length + size ≤ maxsize
  /-- The address space does not end before. -/
  inside : region.org + (region.length + size) ≤ addressSpace

/-- Space is claimed exactly where there is room, and behind all that was handed out before. -/
theorem claim_iff {size offset : Nat} :
    region.claim size pos = .ok (offset, region') ↔
      region.Admits size ∧ offset = region.length ∧ region' = region.extended size := by
  -- A region that ends inside the address space has no more bytes than there are addresses.
  rw [claim, reserveUpTo_iff, upTo_length_add]
  refine and_congr_left fun _ => ⟨fun room => ⟨room.1, room.2.1⟩, fun room => ⟨room.within, room.inside, ?_⟩⟩
  have := room.inside
  omega

/-- Where there are as many words behind the cursor, space is reserved exactly where there is room. -/
theorem reserve_iff {size offset : Nat} (room : region.cursor + size < Word.count) :
    region.reserve size pos = .ok (offset, region') ↔
      region.Admits size ∧ offset = region.length ∧ region' = region.extended size := by
  -- With so much room nothing wraps around, and reserving is claiming.
  rw [reserve_eq_claim room, claim_iff]

/-- Bytes are written exactly where there is room, and behind all that was handed out before. -/
theorem write_iff {bytes : List UInt8} {offset : Nat} :
    region.write bytes pos = .ok (offset, region') ↔
      region.Admits bytes.length ∧ offset = region.length ∧
        region' = { region with data := region.data ++ bytes.map some } := by
  -- Writing is claiming the space and filling it.
  simp only [write, except_bind_eq_ok, except_pure_eq_ok, Prod.mk.injEq, Prod.exists, claim_iff]
  constructor
  · rintro ⟨_, _, ⟨room, rfl, rfl⟩, rfl, rfl⟩
    exact ⟨room, rfl, writeAt_extended region bytes⟩
  · rintro ⟨room, rfl, rfl⟩
    exact ⟨_, _, ⟨room, rfl, rfl⟩, rfl, writeAt_extended region bytes⟩

/-- The bytes from the cursor of a region up to a multiple. -/
def gap (region : Buffer) (multiple : Nat) : Nat :=
  (multiple - region.cursor % multiple) % multiple

/-- The cursor is moved on exactly where there is room, by the gap up to the multiple. -/
theorem align_iff {multiple : Nat} (proper : 1 < multiple) :
    region.align multiple pos = .ok region' ↔
      region.Admits (region.gap multiple) ∧ region' = region.extended (region.gap multiple) := by
  -- Aligning is claiming the gap.
  unfold align
  rw [if_neg (by omega)]
  simp only [except_bind_eq_ok, except_pure_eq_ok, Prod.exists]
  constructor
  · rintro ⟨offset, grown, reserved, rfl⟩
    obtain ⟨room, -, same⟩ := claim_iff.1 reserved
    exact ⟨room, same⟩
  · rintro ⟨room, rfl⟩
    exact ⟨_, _, claim_iff.2 ⟨room, rfl, rfl⟩, rfl⟩

/-- A run of bytes that was handed out. -/
structure Run where
  /-- The offset of its first byte. -/
  offset : Nat
  /-- The number of its bytes. -/
  size : Nat

/-- The offsets of a run. -/
def Run.range (run : Run) : Set Nat :=
  Set.Ico run.offset (run.offset + run.size)

/-- Bytes that were put down. -/
structure Fill where
  /-- The offset of the first one. -/
  offset : Nat
  /-- The bytes. -/
  bytes : List UInt8

/-- The byte that was put down at an offset. -/
def Fill.byteAt? (fill : Fill) (offset : Nat) : Option UInt8 :=
  if fill.offset ≤ offset then fill.bytes[offset - fill.offset]? else none

/-- At any other offset no byte was put down. -/
theorem Fill.byteAt?_outside {fill : Fill} {offset : Nat}
    (outside : ¬(fill.offset ≤ offset ∧ offset < fill.offset + fill.bytes.length)) :
    fill.byteAt? offset = none := by
  -- The offset is in front of the bytes or behind them.
  unfold Fill.byteAt?
  split
  · rename_i behind
    -- The offset is behind the last of the bytes.
    have := Nat.not_lt.1 fun less => outside ⟨behind, less⟩
    exact List.getElem?_eq_none (by omega)
  · rfl

/-- The byte that was put down last at an offset, the latest bytes coming first. -/
def lastByte? (fills : List Fill) (offset : Nat) : Option UInt8 :=
  fills.findSome? (·.byteAt? offset)

/-- Runs that follow each other from offset zero up to an end, the latest coming first. -/
def Consecutive : Nat → List Run → Prop
  | stop, [] => stop = 0
  | stop, run :: earlier => run.offset + run.size = stop ∧ Consecutive run.offset earlier

/-- A request to a region. -/
inductive Request
  | reserve (size : Nat) (pos : Pos)
  | write (bytes : List UInt8) (pos : Pos)
  | align (multiple : Nat) (pos : Pos)
  | writeAt (offset : Nat) (bytes : List UInt8)

/-- A region, and what was done in it, the latest coming first. -/
structure Ledger where
  /-- The region. -/
  region : Buffer
  /-- The space that was handed out. -/
  runs : List Run := []
  /-- The bytes that were put down. -/
  fills : List Fill := []

namespace Ledger

/-- The ledger after one more request. One that fails leaves the region to its owner as it was. -/
def serve (ledger : Ledger) : Request → Ledger
  | .reserve size pos =>
    match ledger.region.reserve size pos with
    | .ok (offset, region) => ⟨region, ⟨offset, size⟩ :: ledger.runs, ledger.fills⟩
    | .error _ => ledger
  | .write bytes pos =>
    match ledger.region.write bytes pos with
    | .ok (offset, region) =>
      ⟨region, ⟨offset, bytes.length⟩ :: ledger.runs, ⟨offset, bytes⟩ :: ledger.fills⟩
    | .error _ => ledger
  | .align multiple pos =>
    match ledger.region.align multiple pos with
    | .ok region =>
      -- What is skipped is handed out to nobody, but it is a run like the others.
      let skipped := region.length - ledger.region.length
      ⟨region, ⟨ledger.region.length, skipped⟩ :: ledger.runs, ledger.fills⟩
    | .error _ => ledger
  | .writeAt offset bytes =>
    ⟨ledger.region.writeAt offset bytes, ledger.runs, ⟨offset, bytes⟩ :: ledger.fills⟩

/-- The ledger after requests in order. -/
def served (ledger : Ledger) (requests : List Request) : Ledger :=
  requests.foldl serve ledger

/-- Whether bytes that a request puts down lie in space that was handed out, and space that is asked
for ends before the words start again from zero. -/
def Inside (ledger : Ledger) : Request → Prop
  | .reserve size _ => ledger.region.cursor + size < Word.count
  | .writeAt offset bytes => offset + bytes.length ≤ ledger.region.length
  | .write .. | .align .. => True

instance (ledger : Ledger) : DecidablePred ledger.Inside
  | .reserve .. => inferInstanceAs (Decidable (_ < _))
  | .writeAt .. => inferInstanceAs (Decidable (_ ≤ _))
  | .write .. | .align .. => inferInstanceAs (Decidable True)

/-- Whether this holds of requests in order. -/
def AllInside (ledger : Ledger) : List Request → Prop
  | [] => True
  | request :: others => ledger.Inside request ∧ (ledger.serve request).AllInside others

instance decidableAllInside : (ledger : Ledger) → DecidablePred ledger.AllInside
  | _, [] => inferInstanceAs (Decidable True)
  | ledger, request :: others =>
    have := decidableAllInside (ledger.serve request) others
    inferInstanceAs (Decidable (_ ∧ _))

end Ledger

/-- A region that keeps to the limits of one that was fresh. -/
structure Limited (fresh region : Buffer) : Prop where
  /-- The region starts where it did. -/
  org : region.org = fresh.org
  /-- It has the size that it had. -/
  maxsize : region.maxsize = fresh.maxsize
  /-- It has the fill that it had. -/
  padding : region.padding = fresh.padding
  /-- It holds no more than its size. -/
  within : ∀ maxsize ∈ fresh.maxsize, region.length ≤ maxsize
  /-- It ends before the address space does. -/
  inside : fresh.org + region.length ≤ addressSpace

namespace Limited

variable {fresh : Buffer}

/-- A region that is made as long as the limits allow for keeps to them. -/
theorem reserveUpTo (limited : Limited fresh region) {stop last offset : Nat}
    (exact_ : stop ≤ addressSpace → last = region.org + stop)
    (ran : region.reserveUpTo stop last pos = .ok (offset, region')) : Limited fresh region' := by
  -- Both limits were checked, against numbers that are those of the fresh region.
  obtain ⟨⟨within, inside, short⟩, -, rfl⟩ := reserveUpTo_iff.1 ran
  rw [exact_ short, limited.org] at inside
  rw [limited.maxsize] at within
  exact ⟨limited.org, limited.maxsize, limited.padding, by simpa using within, by simpa using inside⟩

/-- A region in which space is claimed keeps to the limits. -/
theorem claim (limited : Limited fresh region) {size offset : Nat}
    (ran : region.claim size pos = .ok (offset, region')) : Limited fresh region' :=
  limited.reserveUpTo (fun _ => rfl) ran

/-- A region in which space is reserved keeps to the limits, whatever number is asked for. -/
theorem reserve (limited : Limited fresh region) {size offset : Nat}
    (ran : region.reserve size pos = .ok (offset, region')) : Limited fresh region' := by
  -- The end of the space is below the address space, so that it is the sum and no wrapped one.
  refine limited.reserveUpTo (fun short => Word.add_of_lt ?_) ran
  -- Both the start and the end of the region are far from the greatest word.
  have low := limited.inside
  rw [← limited.org] at low
  simp only [addressSpace, Word.count] at low short ⊢
  omega

/-- Writing changes nothing that is limited. -/
theorem writeAt (limited : Limited fresh region) (offset : Nat) (bytes : List UInt8) :
    Limited fresh (region.writeAt offset bytes) := by
  -- The bytes stand where there were places already.
  refine ⟨?_, ?_, ?_, by simpa using limited.within, by simpa using limited.inside⟩
  · rw [org_writeAt, limited.org]
  · rw [Buffer.writeAt]
    split <;> exact limited.maxsize
  · rw [Buffer.writeAt]
    split <;> exact limited.padding

/-- Every request keeps to the limits. -/
theorem serve {ledger : Ledger} (limited : Limited fresh ledger.region) (request : Request) :
    Limited fresh (ledger.serve request).region := by
  -- A request that fails does nothing, and one that succeeds claims, reserves or writes.
  cases request with
  | reserve size pos =>
    -- Reserving keeps to the limits by itself.
    simp only [Ledger.serve]
    split
    · rename_i ran
      exact limited.reserve ran
    · exact limited
  | write bytes pos =>
    -- Writing claims space and puts the bytes into it.
    simp only [Ledger.serve]
    split
    · rename_i ran
      simp only [write, except_bind_eq_ok, except_pure_eq_ok, Prod.mk.injEq] at ran
      obtain ⟨⟨place, grown⟩, claimed, rfl, rfl⟩ := ran
      exact (limited.claim claimed).writeAt _ _
    · exact limited
  | align multiple pos =>
    -- Alignment claims the gap, if there may be one.
    simp only [Ledger.serve]
    split
    · rename_i ran
      unfold align at ran
      split at ran
      · cases ran
        exact limited
      · simp only [except_bind_eq_ok, except_pure_eq_ok] at ran
        obtain ⟨⟨offset, grown⟩, claimed, rfl⟩ := ran
        exact limited.claim claimed
    · exact limited
  -- Bytes in reserved space change no length.
  | writeAt offset bytes => exact limited.writeAt offset bytes

/-- Requests in order keep to the limits. -/
theorem served {ledger : Ledger} (limited : Limited fresh ledger.region) (requests : List Request) :
    Limited fresh (ledger.served requests).region := by
  -- By induction on the requests, each of which keeps to the limits.
  induction requests generalizing ledger with
  | nil => exact limited
  | cons request others ih => exact ih (limited.serve request)

end Limited

namespace Ledger

/-- What holds of the ledger of a region that was fresh, after any requests. -/
structure Mapped (fresh : Buffer) (ledger : Ledger) : Prop where
  /-- The region keeps to its limits. -/
  limited : Limited fresh ledger.region
  /-- The runs that were handed out make up the whole of it. -/
  runs : Consecutive ledger.region.length ledger.runs
  /-- It holds the bytes that were put down last. -/
  bytes : ∀ offset, ledger.region.data[offset]?.join = lastByte? ledger.fills offset

variable {fresh : Buffer} {ledger : Ledger}

/-- One more run is handed out, in which nothing stands. -/
theorem Mapped.extend (mapped : Mapped fresh ledger) {size : Nat}
    (limited : Limited fresh (ledger.region.extended size)) :
    Mapped fresh ⟨ledger.region.extended size, ⟨ledger.region.length, size⟩ :: ledger.runs,
      ledger.fills⟩ := by
  -- The length grows by the new run, and the fills are those from before.
  have longer : (ledger.region.extended size).length = ledger.region.length + size := by
    simp [extended, Buffer.length]
  refine ⟨limited, ⟨longer.symm, mapped.runs⟩, fun offset => ?_⟩
  -- Space in which nothing stands gives no byte, like space that is not there.
  rw [← mapped.bytes offset]
  simp only [extended]
  by_cases old : offset < ledger.region.data.length
  · rw [List.getElem?_append_left old]
  · rw [List.getElem?_append_right (by omega), List.getElem?_eq_none (l := ledger.region.data)
      (by omega), List.getElem?_replicate]
    split <;> rfl

/-- Bytes are put down in space that was handed out. -/
theorem Mapped.fill (mapped : Mapped fresh ledger) {offset : Nat} {bytes : List UInt8}
    (room : offset + bytes.length ≤ ledger.region.length) :
    Mapped fresh ⟨ledger.region.writeAt offset bytes, ledger.runs, ⟨offset, bytes⟩ :: ledger.fills⟩ := by
  -- The runs are untouched, and the new fill comes first among the fills.
  refine ⟨mapped.limited.writeAt offset bytes, ?_, fun place => ?_⟩
  · rw [length_writeAt]
    exact mapped.runs
  · rw [getElem?_writeAt room, lastByte?, List.findSome?_cons]
    by_cases here : offset ≤ place ∧ place < offset + bytes.length
    · -- The new bytes are the latest ones here.
      have among : place - offset < bytes.length := by omega
      rw [if_pos here, Fill.byteAt?, if_pos here.1, List.getElem?_eq_getElem among]
      rfl
    · rw [if_neg here, mapped.bytes place, Fill.byteAt?_outside here]
      rfl

/-- Every request keeps all this, whether it is granted or not. -/
theorem Mapped.serve (mapped : Mapped fresh ledger) {request : Request}
    (inside : ledger.Inside request) : Mapped fresh (ledger.serve request) := by
  have limited := mapped.limited.serve request
  -- A request that is granted hands out a run, fills some bytes, or both; any other does nothing.
  cases request with
  | reserve size pos =>
    -- The space is handed out behind all that was handed out before.
    simp only [Ledger.serve] at limited ⊢
    split
    · rename_i offset region ran
      rw [ran] at limited
      obtain ⟨-, rfl, rfl⟩ := (reserve_iff inside).1 ran
      exact mapped.extend limited
    · exact mapped
  | write bytes pos =>
    simp only [Ledger.serve] at limited ⊢
    split
    · rename_i offset region ran
      simp only [write, except_bind_eq_ok, except_pure_eq_ok, Prod.mk.injEq] at ran
      obtain ⟨⟨place, grown⟩, claimed, rfl, rfl⟩ := ran
      -- The bytes are put down in a run that is handed out for them.
      have grows := mapped.limited.claim claimed
      obtain ⟨-, rfl, rfl⟩ := claim_iff.1 claimed
      refine (mapped.extend grows).fill ?_
      simp [extended, Buffer.length]
    · exact mapped
  | align multiple pos =>
    -- The gap is handed out, with nothing put into it.
    simp only [Ledger.serve] at limited ⊢
    split
    · rename_i region ran
      rw [ran] at limited
      by_cases proper : 1 < multiple
      · obtain ⟨-, rfl⟩ := (align_iff proper).1 ran
        have skipped : (ledger.region.extended (ledger.region.gap multiple)).length -
            ledger.region.length = ledger.region.gap multiple := by
          simp [extended, Buffer.length]
        rw [skipped]
        exact mapped.extend limited
      · -- Every address is a multiple already, and the run is empty.
        rw [align, if_pos (by omega)] at ran
        cases ran
        rw [Nat.sub_self]
        exact ⟨mapped.limited, ⟨rfl, mapped.runs⟩, mapped.bytes⟩
    · exact mapped
  | writeAt offset bytes => exact mapped.fill inside

/-- Requests in order keep all this. -/
theorem Mapped.served (mapped : Mapped fresh ledger) {requests : List Request}
    (inside : ledger.AllInside requests) : Mapped fresh (ledger.served requests) := by
  -- The induction is on the requests that are left, with the ledger as it is by then.
  induction requests generalizing ledger with
  | nil => exact mapped
  | cons request others ih => exact ih (mapped.serve inside.1) inside.2

/-- The final bytes of a region are those that were put down last, and fill everywhere else. -/
theorem Mapped.finish (mapped : Mapped fresh ledger) :
    ledger.region.finish.length = max (fresh.maxsize.getD 0) ledger.region.length ∧
      ∀ offset < ledger.region.finish.length, ledger.region.finish[offset]? =
        some ((lastByte? ledger.fills offset).getD (fresh.padding.byteAt offset)) := by
  -- The final bytes are given offset by offset, as far as the region extends.
  have extent : ledger.region.extent = max (fresh.maxsize.getD 0) ledger.region.length := by
    rw [extent, mapped.limited.maxsize]
  rw [finish_eq, List.length_map, List.length_range, ← extent]
  refine ⟨rfl, fun offset less => ?_⟩
  rw [List.getElem?_map, List.getElem?_range less, Option.map_some, mapped.bytes,
    mapped.limited.padding]

end Ledger

/-- Runs that follow each other end where the last of them does. -/
theorem Consecutive.le {stop : Nat} {runs : List Run} (consecutive : Consecutive stop runs)
    {run : Run} (inside : run ∈ runs) : run.offset + run.size ≤ stop := by
  -- The latest run ends at the end, and the others end where it starts, or before.
  induction runs generalizing stop with
  | nil => cases inside
  | cons last earlier ih =>
    obtain ⟨ends, rest⟩ := consecutive
    rcases List.mem_cons.1 inside with rfl | before
    · omega
    · have := ih rest before
      omega

/-- Runs that follow each other share no offset. -/
theorem Consecutive.disjoint {stop : Nat} {runs : List Run} (consecutive : Consecutive stop runs) :
    (runs.map Run.range).Pairwise Disjoint := by
  -- By induction on the runs, the last of which is the first in the list.
  induction runs generalizing stop with
  | nil => exact .nil
  | cons last earlier ih =>
    obtain ⟨ends, rest⟩ := consecutive
    refine List.pairwise_cons.2 ⟨fun range listed => ?_, ih rest⟩
    obtain ⟨run, before, rfl⟩ := List.mem_map.1 listed
    -- An earlier run ends where the last one starts, or before.
    have := rest.le before
    rw [Run.range, Run.range, Set.Ico_disjoint_Ico]
    omega

/-- The region that they are asked of. -/
def unsized : Buffer :=
  { org := 0x8000, maxsize := none, padding := .default }

end CrossAsm.Buffer
