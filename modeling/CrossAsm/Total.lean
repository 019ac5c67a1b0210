/-! Totals of lists of numbers, and the number of names that a trail has not passed yet. -/

namespace CrossAsm

/-- The sum of numbers. -/
def total (numbers : List Nat) : Nat :=
  numbers.foldr (· + ·) 0

/-- Nothing sums to zero. -/
@[simp]
theorem total_nil : total [] = 0 :=
  rfl

/-- The first number counts beside the others. -/
@[simp]
theorem total_cons (number : Nat) (others : List Nat) :
    total (number :: others) = number + total others :=
  rfl

/-- The numbers of two lists sum up separately. -/
@[simp]
theorem total_append (first second : List Nat) :
    total (first ++ second) = total first + total second := by
  induction first with
  | nil => simp
  | cons number others ih => simp [ih, Nat.add_assoc]

/-- Nothing but zeros sums to zero. -/
theorem total_map_eq_zero {α : Type} {f : α → Nat} {list : List α} (each : ∀ a ∈ list, f a = 0) :
    total (list.map f) = 0 := by
  induction list with
  | nil => rfl
  | cons first others ih =>
    rw [List.forall_mem_cons] at each
    rw [List.map_cons, total_cons, each.1, ih each.2]

/-- A name that a trail has not passed yet is one less to pass behind it. -/
theorem length_unpassed_lt {names trail : List String} {name : String} (inside : name ∈ names)
    (fresh : name ∉ trail) :
    (names.filter (· ∉ trail ++ [name])).length < (names.filter (· ∉ trail)).length := by
  have twice : names.filter (· ∉ trail ++ [name]) =
      (names.filter (· ∉ trail)).filter (· ≠ name) := by
    rw [List.filter_filter]
    refine List.filter_congr fun other _ => ?_
    simp [Bool.and_comm]
  rw [twice, List.length_filter_lt_length_iff_exists]
  exact ⟨name, by simpa using ⟨inside, fresh⟩, by simp⟩

end CrossAsm
