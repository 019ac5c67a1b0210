/-! Keyed entries that keep the order in which their keys first appeared. -/

namespace CrossAsm.Entries

variable {κ α : Type} [DecidableEq κ]

/-- The value under a key. -/
def get? (key : κ) : List (κ × α) → Option α
  | [] => none
  | (other, value) :: rest => if other = key then some value else get? key rest

/-- Gives a key its value, in its old place if it has one and at the end if not. -/
def insert (key : κ) (value : α) : List (κ × α) → List (κ × α)
  | [] => [(key, value)]
  | (other, old) :: rest =>
    if other = key then (key, value) :: rest else (other, old) :: insert key value rest

/-- The entries that a list of pairs leaves when they are inserted one after another. -/
def ofPairs (pairs : List (κ × α)) : List (κ × α) :=
  pairs.foldl (fun entries pair => insert pair.1 pair.2 entries) []

/-- A key has the value just inserted under it, and the others keep theirs. -/
theorem get?_insert (key query : κ) (value : α) (entries : List (κ × α)) :
    get? query (insert key value entries) =
      if key = query then some value else get? query entries := by
  -- Either the head holds the key, or the insertion happens further on.
  induction entries with
  | nil => rfl
  | cons head rest ih =>
    obtain ⟨other, old⟩ := head
    by_cases replaced : other = key
    · subst replaced
      by_cases same : other = query <;> simp [insert, get?, same]
    · by_cases here : other = query
      · subst here
        simp [insert, get?, replaced, Ne.symm replaced]
      · simp [insert, get?, replaced, here, ih]

/-- A key that has a value is the key of an entry. -/
theorem mem_of_get? {key : κ} {value : α} {entries : List (κ × α)}
    (found : get? key entries = some value) : (key, value) ∈ entries := by
  -- The look-up stops at the entry that it returns.
  induction entries with
  | nil => cases found
  | cons head rest ih =>
    obtain ⟨other, old⟩ := head
    by_cases here : other = key
    · subst here
      simp_all [get?]
    · simp only [get?, here, if_false] at found
      exact List.mem_cons_of_mem _ (ih found)

/-- Entries that are inserted are the new one and old ones. -/
theorem mem_insert {key : κ} {value : α} {entries : List (κ × α)} {pair : κ × α}
    (inside : pair ∈ insert key value entries) : pair = (key, value) ∨ pair ∈ entries := by
  -- The entry replaced is dropped, and the others are passed over as they are.
  induction entries with
  | nil => exact .inl (List.mem_singleton.1 inside)
  | cons head rest ih =>
    obtain ⟨other, old⟩ := head
    by_cases here : other = key
    · simp only [insert, here, if_true, List.mem_cons] at inside ⊢
      exact inside.imp_right .inr
    · simp only [insert, here, if_false, List.mem_cons] at inside ⊢
      rcases inside with same | later
      · exact .inr (.inl same)
      · exact (ih later).imp_right .inr

end CrossAsm.Entries
