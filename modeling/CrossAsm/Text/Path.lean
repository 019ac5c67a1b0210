/-! Dotted paths. -/

namespace CrossAsm.Text

/-- The parts of a text around its first dot, when it has one. -/
def cutAtDot : List Char → Option (List Char × List Char)
  | [] => none
  | '.' :: rest => some ([], rest)
  | c :: rest => (cutAtDot rest).map fun (head, tail) => (c :: head, tail)

/-- The head of a dotted name and what follows the first dot. -/
def splitHead (name : String) : Option (String × String) :=
  (cutAtDot name.toList).map fun (head, tail) => (String.ofList head, String.ofList tail)

/-- What follows a dot is shorter than the text. -/
theorem cutAtDot_length {text head tail : List Char} (cut : cutAtDot text = some (head, tail)) :
    tail.length < text.length := by
  -- The dot itself is dropped, and so is everything before it.
  fun_induction cutAtDot text generalizing head tail with
  | case1 => contradiction
  | case2 rest =>
    obtain ⟨-, rfl⟩ := Prod.mk.inj (Option.some.inj cut)
    simp
  | case3 c rest _ ih =>
    obtain ⟨⟨before, after⟩, cutRest, same⟩ := Option.map_eq_some_iff.1 cut
    obtain ⟨-, rfl⟩ := Prod.mk.inj same
    have shorter := ih cutRest
    simp only [List.length_cons]
    omega

/-- All parts of a text between its dots. -/
def splitDots : List Char → List (List Char)
  | [] => [[]]
  | '.' :: rest => [] :: splitDots rest
  | c :: rest =>
    match splitDots rest with
    | [] => [[c]]
    | part :: others => (c :: part) :: others

/-- A text that is not cut has one part. -/
theorem splitDots_of_uncut {text : List Char} (uncut : cutAtDot text = none) :
    splitDots text = [text] := by
  -- No character is a dot, so each one joins the part that follows it.
  fun_induction cutAtDot text with
  | case1 => rfl
  | case2 => cases uncut
  | case3 c rest plain ih =>
    rw [splitDots, ih (Option.map_eq_none_iff.1 uncut)]
    exact plain

/-- A text that is cut has the part before its first dot, and those behind. -/
theorem splitDots_of_cut {text head tail : List Char} (cut : cutAtDot text = some (head, tail)) :
    splitDots text = head :: splitDots tail := by
  -- By induction on what comes before the dot.
  fun_induction cutAtDot text generalizing head tail with
  | case1 => cases cut
  | case2 rest =>
    obtain ⟨rfl, rfl⟩ := Prod.mk.inj (Option.some.inj cut)
    rfl
  | case3 c rest plain ih =>
    obtain ⟨⟨before, after⟩, cutRest, same⟩ := Option.map_eq_some_iff.1 cut
    obtain ⟨rfl, rfl⟩ := Prod.mk.inj same
    rw [splitDots, ih cutRest]
    exact plain

end CrossAsm.Text
