import CrossAsm.Parser.Cursor
import CrossAsm.Proofs.Steps

/-! What a parsing step reads from tokens without comments, said in two ways: what stood in front of
the cursor when a step succeeds, and what has to stand there for it to succeed. -/

namespace CrossAsm

/-- The lexemes of tokens. -/
def Token.lexemes (tokens : List Token) : List Lexeme :=
  tokens.map (·.lexeme)

/-- Tokens none of which is a comment. -/
def Token.Uncommented (tokens : List Token) : Prop :=
  ∀ token ∈ tokens, token.lexeme.isComment = false

open Token (lexemes Uncommented)

/-- The tail of tokens without comments has none. -/
theorem Token.Uncommented.right {early late : List Token} (plain : Uncommented (early ++ late)) :
    Uncommented late := by
  -- The tokens of the tail are among all.
  intro token inside
  exact plain token (List.mem_append_right _ inside)

/-- A step goes on with the answer and the state of the one before it. -/
theorem bind_of_ok {ε σ α β : Type} {x : EStateM ε σ α} {f : α → EStateM ε σ β} {s s' : σ} {a : α}
    (ran : x s = .ok a s') : (x >>= f) s = f a s' := by
  -- A chain goes on where its first step ended.
  show EStateM.bind x f s = _
  rw [EStateM.bind, ran]

/-- Without comments the upcoming token is the first one. -/
theorem Cursor.next?_cons {token : Token} (plain : token.lexeme.isComment = false)
    (rest : List Token) (last : Pos) :
    Cursor.next? ⟨token :: rest, last⟩ = some (token, ⟨rest, token.pos⟩) := by
  -- No comment has to be read past.
  simp [Cursor.next?, plain]

/-- Without comments what is read is the first token. -/
theorem Cursor.rest_of_next? {cursor after : Cursor} {token : Token}
    (plain : Uncommented cursor.rest) (next : cursor.next? = some (token, after)) :
    cursor.rest = token :: after.rest := by
  -- No comment comes in front of the token.
  obtain ⟨_ | ⟨first, rest⟩, last⟩ := cursor
  · cases next
  · rw [Cursor.next?_cons (plain first (List.mem_cons_self ..))] at next
    cases next
    rfl

namespace Parse

variable {α β γ : Type}

/-- What it is to read the upcoming token. -/
theorem next?_eq (cursor : Cursor) :
    next? cursor =
      match cursor.next? with
      | some (token, after) => .ok (some token) after
      | none => .ok none cursor := by
  -- The cursor is looked at, and set behind the token if there is one.
  unfold next?
  rw [bind_of_ok (show (get : Parse Cursor) cursor = .ok cursor cursor from rfl)]
  cases cursor.next? <;> rfl

/-- What it is to read the upcoming token if it is of a class. -/
theorem accept?_eq (select : Lexeme → Option α) (cursor : Cursor) :
    accept? select cursor =
      match cursor.next? with
      | some (token, after) =>
        match select token.lexeme with
        | some value => .ok (some (value, token.pos)) after
        | none => .ok none cursor
      | none => .ok none cursor := by
  -- By what comes next.
  unfold accept?
  rw [bind_of_ok (show peek? cursor = .ok (cursor.next?.map (·.1)) cursor from rfl)]
  cases ahead : cursor.next? with
  | none => rfl
  | some found =>
    obtain ⟨token, after⟩ := found
    simp only [Option.map_some]
    cases select token.lexeme with
    | none => rfl
    | some value =>
      -- The token is looked at first and read then.
      have read : next? cursor = .ok (some token) after := by
        rw [next?_eq, ahead]
      exact bind_of_ok read

/-! ### What was read when a step succeeds -/

/-- A step that, when it succeeds on tokens without comments, has read lexemes that are in a
relation with its answer. -/
def Yields (p : Parse α) (reading : List Lexeme → α → Prop) : Prop :=
  ∀ ⦃cursor after : Cursor⦄ ⦃a : α⦄, Uncommented cursor.rest → p cursor = .ok a after →
    ∃ read, cursor.rest = read ++ after.rest ∧ reading (lexemes read) a

namespace Yields

variable {p : Parse α} {k : α → Parse β} {reading wider : List Lexeme → α → Prop}
  {further : α → List Lexeme → β → Prop} {whole : List Lexeme → β → Prop}

/-- A wider relation holds of no less. -/
theorem mono (yields : Yields p reading) (wide : ∀ read a, reading read a → wider read a) :
    Yields p wider := by
  -- The same lexemes are read.
  intro cursor after a plain ran
  obtain ⟨read, split, holds⟩ := yields plain ran
  exact ⟨read, split, wide _ _ holds⟩

/-- A step that leaves the cursor alone reads nothing. -/
theorem still (stays : ∀ ⦃cursor after a⦄, p cursor = .ok a after → after = cursor) :
    Yields p fun read _ => read = [] := by
  -- The cursor is where it was, and nothing is in between.
  intro cursor after a _ ran
  obtain rfl := stays ran
  exact ⟨[], rfl, rfl⟩

/-- An answer reads nothing. -/
theorem answer (a : α) : Yields (pure a) fun read b => read = [] ∧ b = a := by
  -- The cursor is left alone, and the answer is the one given.
  intro cursor after b _ ran
  obtain ⟨rfl, rfl⟩ := pure_eq_ok.1 ran
  exact ⟨[], rfl, rfl, rfl⟩

/-- A failure answers nothing. -/
theorem failure (e : Error) : Yields (throw e) reading := by
  -- There is no answer to relate anything to.
  intro cursor after b _ ran
  exact (throw_eq_ok.1 ran).elim

/-- One step after another reads what the two of them read. -/
theorem bind (first : Yields p reading)
    (rest : ∀ early a, reading early a → Yields (k a) fun late b => whole (early ++ late) b) :
    Yields (p >>= k) whole := by
  -- The lexemes of the second step come behind those of the first.
  intro cursor after b plain ran
  obtain ⟨a, middle, ranFirst, ranRest⟩ := bind_eq_ok.1 ran
  obtain ⟨early, split, holds⟩ := first plain ranFirst
  -- What is left behind the first step has no comments either.
  have plain' : Uncommented middle.rest := by
    rw [split] at plain
    exact plain.right
  obtain ⟨late, split', holds'⟩ := rest _ a holds plain' ranRest
  refine ⟨early ++ late, by rw [split, split', List.append_assoc], ?_⟩
  rwa [lexemes, List.map_append]

/-- Repeated steps read on from what was read before. -/
theorem iterate {step : α → Parse (α ⊕ β)} {sofar : List Lexeme → α → Prop}
    (each : ∀ seen a, sofar seen a → Yields (step a) fun read result =>
      result.elim (sofar (seen ++ read)) (whole (seen ++ read)))
    (rounds : Nat) {seen : List Lexeme} {a : α} (start : sofar seen a) :
    Yields (Parse.iterate step rounds a) fun read b => whole (seen ++ read) b := by
  -- By induction on the rounds: what one round has read is seen by those behind it.
  induction rounds generalizing seen a with
  | zero =>
    intro cursor after b _ ran
    cases ran
  | succ rounds ih =>
    refine (each seen a start).bind fun early result holds => ?_
    cases result with
    | inl a =>
      have later := ih (show sofar (seen ++ early) a from holds)
      simpa only [List.append_assoc] using later
    | inr b =>
      refine (answer b).mono ?_
      rintro read b' ⟨rfl, rfl⟩
      rw [List.append_nil]
      exact holds

/-- A loop reads from nothing on. -/
theorem loop {step : α → Parse (α ⊕ β)} {sofar : List Lexeme → α → Prop}
    (each : ∀ seen a, sofar seen a → Yields (step a) fun read result =>
      result.elim (sofar (seen ++ read)) (whole (seen ++ read)))
    {seen : List Lexeme} {a : α} (start : sofar seen a) :
    Yields (Parse.loop step a) fun read b => whole (seen ++ read) b := by
  -- The loop has more rounds than there are tokens.
  intro cursor after b plain ran
  obtain ⟨found, middle, ranGet, ranAll⟩ := bind_eq_ok.1 ran
  obtain ⟨-, rfl⟩ := get_eq_ok.1 ranGet
  exact iterate each _ start plain ranAll

/-- Reading a token of a class, if it comes next. -/
theorem accept? (select : Lexeme → Option α) :
    Yields (Parse.accept? select) fun read found =>
      match found with
      | some (value, _) => ∃ lexeme, read = [lexeme] ∧ select lexeme = some value
      | none => read = [] := by
  -- By what comes next: nothing, a token of another class, or one of the class.
  intro cursor after found plain ran
  rw [accept?_eq] at ran
  cases ahead : cursor.next? with
  | none =>
    rw [ahead] at ran
    cases ran
    exact ⟨[], rfl, rfl⟩
  | some read =>
    obtain ⟨token, behind⟩ := read
    simp only [ahead] at ran
    cases chosen : select token.lexeme with
    | none =>
      rw [chosen] at ran
      cases ran
      exact ⟨[], rfl, rfl⟩
    | some value =>
      rw [chosen] at ran
      cases ran
      exact ⟨[token], Cursor.rest_of_next? plain ahead, token.lexeme, rfl, chosen⟩

/-- Reading a token that must be of a class. -/
theorem require (select : Lexeme → Option α) :
    Yields (Parse.require select) fun read found =>
      ∃ lexeme, read = [lexeme] ∧ select lexeme = some found.1 := by
  -- A token of the class is read, and without one it is an error.
  refine (accept? select).bind fun early found holds => ?_
  cases found with
  | some found =>
    refine (answer found).mono ?_
    rintro late _ ⟨rfl, rfl⟩
    simpa only [List.append_nil] using holds
  | none =>
    intro cursor after b _ ran
    -- Neither of the two ends of an unexpected token is a success.
    obtain ⟨ahead, middle, -, failed⟩ := bind_eq_ok.1 ran
    cases ahead with
    | none => cases failed
    | some token => cases failed

end Yields

/-- One exact lexeme is selected by itself only. -/
theorem exactly_eq_some {lexeme candidate : Lexeme} :
    exactly lexeme candidate = some () ↔ candidate = lexeme := by
  -- The lexeme is compared.
  simp [exactly]

/-- Identifiers are selected by their names. -/
theorem identName_eq_some {lexeme : Lexeme} {word : String} :
    identName lexeme = some word ↔ lexeme = .ident word := by
  -- Lexemes of the other kinds have no name.
  cases lexeme <;> simp [identName]

namespace Yields

/-- Reading a glyph, if it comes next. -/
theorem eat (glyph : Glyph) :
    Yields (Parse.eat glyph) fun read found => read = if found then [.glyph glyph] else [] := by
  -- The class has the one glyph.
  refine (accept? _).bind fun early found holds => ?_
  refine (answer _).mono ?_
  rintro late _ ⟨rfl, rfl⟩
  cases found with
  | none =>
    rw [List.append_nil]
    exact holds
  | some found =>
    obtain ⟨lexeme, rfl, same⟩ := holds
    rw [exactly_eq_some.1 same]
    rfl

/-- Reading a glyph that must come next. -/
theorem expect (glyph : Glyph) :
    Yields (Parse.expect glyph) fun read _ => read = [.glyph glyph] := by
  -- The class has the one glyph.
  refine (require _).bind fun early found holds => ?_
  refine (answer _).mono ?_
  rintro late _ ⟨rfl, rfl⟩
  obtain ⟨lexeme, rfl, same⟩ := holds
  rw [exactly_eq_some.1 same, List.append_nil]

/-- Reading an identifier. -/
theorem ident : Yields Parse.ident fun read word => read = [.ident word] := by
  -- The class has the identifiers.
  refine (require _).bind fun early found holds => ?_
  refine (answer _).mono ?_
  rintro late _ ⟨rfl, rfl⟩
  obtain ⟨lexeme, rfl, same⟩ := holds
  rw [identName_eq_some.1 same, List.append_nil]

/-- Reading any token. -/
theorem next : Yields Parse.next fun read token => read = [token.lexeme] := by
  -- There is a token, or the end of the input is an error.
  intro cursor after token plain ran
  obtain ⟨found, middle, ranNext, ranRest⟩ := bind_eq_ok.1 ran
  rw [next?_eq] at ranNext
  cases ahead : cursor.next? with
  | none =>
    rw [ahead] at ranNext
    cases ranNext
    cases ranRest
  | some read =>
    rw [ahead] at ranNext
    cases ranNext
    obtain ⟨rfl, rfl⟩ := pure_eq_ok.1 ranRest
    exact ⟨[_], Cursor.rest_of_next? plain ahead, rfl⟩

/-- Looking ahead reads nothing. -/
theorem isAt (p : Lexeme → Bool) : Yields (Parse.isAt p) fun read _ => read = [] := by
  -- The cursor is where it was, whatever comes next.
  refine still fun cursor after found ran => ?_
  obtain ⟨ahead, middle, ranPeek, ranRest⟩ := bind_eq_ok.1 ran
  obtain rfl : middle = cursor := by
    cases ranPeek
    rfl
  cases ahead with
  | none => exact (pure_eq_ok.1 ranRest).2.symm
  | some token => exact (pure_eq_ok.1 ranRest).2.symm

end Yields

/-! ### What a step needs to succeed -/

/-- A step that reads exactly the given lexemes and answers as told, wherever what follows them is
as asked and there are no comments. -/
def Reads (p : Parse α) (written : List Lexeme) (ahead : List Lexeme → Prop) (told : α → Prop) :
    Prop :=
  ∀ ⦃tokens rest : List Token⦄ (last : Pos), lexemes tokens = written →
    Uncommented (tokens ++ rest) → ahead (lexemes rest) →
      ∃ a last', told a ∧ p ⟨tokens ++ rest, last⟩ = .ok a ⟨rest, last'⟩

namespace Reads

variable {p : Parse α} {k : α → Parse β} {early late : List Lexeme} {ahead : List Lexeme → Prop}
  {told : α → Prop} {told' : β → Prop}

/-- A step asks for no less of what follows when more is known of it. -/
theorem follows {narrow : List Lexeme → Prop} (reads : Reads p early ahead told)
    (enough : ∀ rest, narrow rest → ahead rest) : Reads p early narrow told := by
  -- What follows is only weakened.
  intro tokens rest last written plain known
  exact reads last written plain (enough _ known)

/-- An answer needs nothing. -/
theorem answer {a : α} (holds : told a) : Reads (pure a) [] ahead told := by
  -- No token is written that would have to be read.
  intro tokens rest last written _ _
  obtain rfl := List.map_eq_nil_iff.1 written
  exact ⟨a, last, holds, rfl⟩

/-- One step after another, when the lexemes of the second may follow those of the first. -/
theorem bind {middle : List Lexeme → Prop} (first : Reads p early middle told)
    (second : ∀ a, told a → Reads (k a) late ahead told')
    (joins : ∀ rest, ahead rest → middle (late ++ rest)) :
    Reads (p >>= k) (early ++ late) ahead told' := by
  -- What follows the first step is the second one, and then the rest.
  intro tokens rest last written plain follows
  obtain ⟨before, behind, rfl, rfl, rfl⟩ := List.map_eq_append_iff.1 written
  rw [List.append_assoc] at plain
  have joined : middle (lexemes (behind ++ rest)) := by
    rw [lexemes, List.map_append]
    exact joins _ follows
  obtain ⟨a, last', holds, ran⟩ := first last rfl plain joined
  obtain ⟨b, last'', holds', ran'⟩ := second a holds last' rfl plain.right follows
  refine ⟨b, last'', holds', ?_⟩
  rw [List.append_assoc, bind_of_ok ran, ran']

/-- A step that reads one token, whatever follows it, before another step. -/
theorem cons {lexeme : Lexeme} (first : Reads p [lexeme] (fun _ => True) told)
    (second : ∀ a, told a → Reads (k a) late ahead told') :
    Reads (p >>= k) (lexeme :: late) ahead told' :=
  first.bind second fun _ _ => trivial

/-- One step after another, when the first one reads nothing. -/
theorem starts {middle : List Lexeme → Prop} (first : Reads p [] middle told)
    (second : ∀ a, told a → Reads (k a) late ahead told')
    (joins : ∀ rest, ahead rest → middle (late ++ rest)) : Reads (p >>= k) late ahead told' :=
  first.bind second joins

/-- One step after another, when the second one reads nothing. -/
theorem ends (first : Reads p early ahead told)
    (second : ∀ a, told a → Reads (k a) [] ahead told') : Reads (p >>= k) early ahead told' := by
  -- The second one reads the empty list behind the first one.
  have both := first.bind second fun _ follows => follows
  rwa [List.append_nil] at both

/-- A step whose answer is only put into another form. -/
theorem map {f : α → β} (first : Reads p early ahead told) (forms : ∀ a, told a → told' (f a)) :
    Reads (p >>= fun a => pure (f a)) early ahead told' :=
  first.ends fun a holds => answer (forms a holds)

/-- Reading a token of a class that comes next. -/
theorem accept? {select : Lexeme → Option α} {lexeme : Lexeme} {value : α}
    (chosen : select lexeme = some value) :
    Reads (Parse.accept? select) [lexeme] ahead fun found => found.map (·.1) = some value := by
  -- The one lexeme is that of the upcoming token.
  intro tokens rest last written plain _
  obtain ⟨token, others, rfl, rfl, none⟩ := List.map_eq_cons_iff.1 written
  obtain rfl := List.map_eq_nil_iff.1 none
  refine ⟨some (value, token.pos), token.pos, rfl, ?_⟩
  rw [accept?_eq, List.singleton_append, Cursor.next?_cons (plain token (List.mem_cons_self ..))]
  simp only [chosen]

/-- Passing over a token that is not of a class. -/
theorem accept?_none {select : Lexeme → Option α} :
    Reads (Parse.accept? select) [] (fun rest => ∀ lexeme ∈ rest.head?, select lexeme = none)
      (· = none) := by
  -- By what comes next: nothing, or a token of another class.
  intro tokens rest last written plain other
  obtain rfl := List.map_eq_nil_iff.1 written
  refine ⟨none, last, rfl, ?_⟩
  rw [accept?_eq]
  cases rest with
  | nil => rfl
  | cons token rest =>
    rw [List.nil_append, Cursor.next?_cons (plain token (List.mem_cons_self ..))]
    simp only [other token.lexeme rfl]

/-- Reading a token that must be of a class. -/
theorem require {select : Lexeme → Option α} {lexeme : Lexeme} {value : α}
    (chosen : select lexeme = some value) :
    Reads (Parse.require select) [lexeme] ahead fun found => found.1 = value := by
  -- It is an accepted token, which is known to be there.
  refine (accept? chosen).ends fun found holds => ?_
  obtain ⟨found, rfl, same⟩ := Option.map_eq_some_iff.1 holds
  exact answer same

/-- Reading a glyph that comes next. -/
theorem eat (glyph : Glyph) : Reads (Parse.eat glyph) [.glyph glyph] ahead (· = true) := by
  -- It is an accepted token, of which only the presence is told.
  refine (accept? (exactly_eq_some.2 rfl)).map fun found holds => ?_
  obtain ⟨found, rfl, -⟩ := Option.map_eq_some_iff.1 holds
  rfl

/-- Passing over what is not a glyph. -/
theorem eat_not (glyph : Glyph) :
    Reads (Parse.eat glyph) [] (fun rest => rest.head? ≠ some (.glyph glyph)) (· = false) := by
  -- Another lexeme is not of the class.
  refine (accept?_none.follows fun rest other lexeme first => ?_).map fun found none => ?_
  · show exactly (.glyph glyph) lexeme = none
    refine if_neg ?_
    rintro rfl
    exact other first
  · rw [none]
    rfl

/-- Reading a glyph that must come next. -/
theorem expect (glyph : Glyph) :
    Reads (Parse.expect glyph) [.glyph glyph] ahead fun _ => True :=
  (require (exactly_eq_some.2 rfl)).map fun _ _ => trivial

/-- Reading an identifier. -/
theorem ident (word : String) : Reads Parse.ident [.ident word] ahead (· = word) :=
  (require (identName_eq_some.2 rfl)).map fun _ holds => holds

/-- Reading any token. -/
theorem next (lexeme : Lexeme) :
    Reads Parse.next [lexeme] ahead fun token => token.lexeme = lexeme := by
  -- The one lexeme is that of the upcoming token.
  intro tokens rest last written plain _
  obtain ⟨token, others, rfl, rfl, none⟩ := List.map_eq_cons_iff.1 written
  obtain rfl := List.map_eq_nil_iff.1 none
  refine ⟨token, token.pos, rfl, ?_⟩
  have read : Parse.next? ⟨[token] ++ rest, last⟩ = .ok (some token) ⟨rest, token.pos⟩ := by
    rw [next?_eq, List.singleton_append,
      Cursor.next?_cons (plain token (List.mem_cons_self ..))]
  exact bind_of_ok read

/-- Looking ahead at a token. -/
theorem isAt (p : Lexeme → Bool) (found : Bool) :
    Reads (Parse.isAt p) [] (fun rest => rest.head?.any p = found) (· = found) := by
  -- By what comes next.
  intro tokens rest last written plain first
  obtain rfl := List.map_eq_nil_iff.1 written
  refine ⟨found, last, rfl, ?_⟩
  cases rest with
  | nil =>
    obtain rfl := first
    rfl
  | cons token rest =>
    obtain rfl := first
    have ahead : Parse.peek? ⟨token :: rest, last⟩ = .ok (some token) ⟨token :: rest, last⟩ := by
      show EStateM.Result.ok (Option.map _ (Cursor.next? ⟨token :: rest, last⟩)) _ = _
      rw [Cursor.next?_cons (plain token (List.mem_cons_self ..))]
      rfl
    exact bind_of_ok ahead

end Reads

/-! ### Loops that read on -/

/-- A step that, having read the given lexemes, stands in a loop at `a`, with rounds enough for all
that follows. -/
def Leads (p : Parse β) (step : α → Parse (α ⊕ β)) (written : List Lexeme)
    (ahead : List Lexeme → Prop) (a : α) : Prop :=
  ∀ ⦃tokens rest : List Token⦄ (last : Pos), lexemes tokens = written →
    Uncommented (tokens ++ rest) → ahead (lexemes rest) →
      ∃ rounds last', rest.length < rounds ∧
        p ⟨tokens ++ rest, last⟩ = iterate step rounds a ⟨rest, last'⟩

namespace Leads

variable {p : Parse β} {step : α → Parse (α ⊕ β)} {early late : List Lexeme}
  {middle ahead : List Lexeme → Prop} {a a' : α} {b : β}

/-- A loop starts where it is entered. -/
theorem loop (step : α → Parse (α ⊕ β)) (a : α) : Leads (Parse.loop step a) step [] ahead a := by
  -- Before the first round the state is the one given.
  intro tokens rest last written _ _
  obtain rfl := List.map_eq_nil_iff.1 written
  exact ⟨rest.length + 1, last, Nat.lt_succ_self _, rfl⟩

/-- A loop may be entered with what a step before it answers. -/
theorem enter {first : Parse α} (reads : Reads first early ahead (· = a)) :
    Leads (first >>= Parse.loop step) step early ahead a := by
  -- One round is there for each token and one more.
  intro tokens rest last written plain follows
  obtain ⟨_, last', rfl, ran⟩ := reads last written plain follows
  refine ⟨rest.length + 1, last', Nat.lt_succ_self _, ?_⟩
  rw [bind_of_ok ran]
  rfl

/-- A round that goes on takes at least one token, so there are rounds enough for the others. -/
theorem round (leads : Leads p step early middle a)
    (reads : Reads (step a) late ahead (· = .inl a')) (some : late ≠ [])
    (joins : ∀ rest, ahead rest → middle (late ++ rest)) :
    Leads p step (early ++ late) ahead a' := by
  intro tokens rest last written plain follows
  obtain ⟨before, behind, rfl, rfl, rfl⟩ := List.map_eq_append_iff.1 written
  rw [List.append_assoc] at plain
  have joined : middle (lexemes (behind ++ rest)) := by
    rw [lexemes, List.map_append]
    exact joins _ follows
  obtain ⟨rounds, last', enough, ran⟩ := leads last rfl plain joined
  obtain ⟨_, last'', rfl, ran'⟩ := reads last' rfl plain.right follows
  have taken : 0 < behind.length := by
    refine List.length_pos_iff.2 fun none => some ?_
    rw [none]
    rfl
  obtain ⟨rounds, rfl⟩ : ∃ fewer, rounds = fewer + 1 := Nat.exists_eq_add_one.2 (by omega)
  refine ⟨rounds, last'', ?_, ?_⟩
  · rw [List.length_append] at enough
    omega
  · rw [List.append_assoc, ran, iterate, bind_of_ok ran']

/-- A round that ends the loop gives its answer. -/
theorem stop (leads : Leads p step early middle a)
    (reads : Reads (step a) late ahead (· = .inr b))
    (joins : ∀ rest, ahead rest → middle (late ++ rest)) :
    Reads p (early ++ late) ahead (· = b) := by
  -- There is a round left, and it gives the answer.
  intro tokens rest last written plain follows
  obtain ⟨before, behind, rfl, rfl, rfl⟩ := List.map_eq_append_iff.1 written
  rw [List.append_assoc] at plain
  have joined : middle (lexemes (behind ++ rest)) := by
    rw [lexemes, List.map_append]
    exact joins _ follows
  obtain ⟨rounds, last', enough, ran⟩ := leads last rfl plain joined
  obtain ⟨_, last'', rfl, ran'⟩ := reads last' rfl plain.right follows
  obtain ⟨rounds, rfl⟩ : ∃ fewer, rounds = fewer + 1 := Nat.exists_eq_add_one.2 (by omega)
  refine ⟨b, last'', rfl, ?_⟩
  rw [List.append_assoc, ran, iterate, bind_of_ok ran']
  rfl

end Leads

end Parse

end CrossAsm
