import CrossAsm.Proofs.Layout.Rounds

/-! Interrupt vectors that are given more than once. A directive whose name is bound in front of it is
recorded where it stands, and one whose name is bound behind it is recorded after the walk. So the last
directive of a kind decides only if it is recorded last. -/

namespace CrossAsm

/-- The name that a directive for a kind of vector gives. -/
def Stmt.vectorOf? (kind : VectorKind) : Stmt → Option String
  | .item (.directive (.vector other name) _) => if other = kind then some name else none
  | _ => none

/-- The names that are given for a kind of vector, in order. -/
def vectorNames (kind : VectorKind) (stmts : List Stmt) : List String :=
  stmts.filterMap (Stmt.vectorOf? kind)

/-- Those of the names given for a kind of vector that are bound in front of their directive, or those
that are not, where some names are bound in front of all statements. -/
def vectorsMet (kind : VectorKind) (known : Bool) : List String → List Stmt → List String
  | _, [] => []
  | bound, s :: stmts =>
    (s.vectorOf? kind).toList.filter (fun name => decide (name ∈ bound) == known) ++
      vectorsMet kind known (s.bound?.toList ++ bound) stmts

/-- The names given for a kind of vector that no statement in front of their directive binds. -/
def lateVectors (kind : VectorKind) (stmts : List Stmt) : List String :=
  vectorsMet kind false [] stmts

section Names

variable {kind : VectorKind} {bound : List String} {stmts : List Stmt} {name : String}

/-- Each name that is given is bound in front of its directive or is not. -/
theorem mem_vectorNames (bound : List String) :
    name ∈ vectorNames kind stmts ↔
      name ∈ vectorsMet kind true bound stmts ∨ name ∈ vectorsMet kind false bound stmts := by
  -- By induction on the statements, with the names that are bound so far.
  induction stmts generalizing bound with
  | nil => simp [vectorNames, vectorsMet]
  | cons first others ih =>
    have rest := ih (first.bound?.toList ++ bound)
    simp only [vectorNames] at rest
    simp only [vectorNames, vectorsMet, List.filterMap_cons, List.mem_append, List.mem_filter]
    cases given : first.vectorOf? kind with
    | none => simp [rest]
    | some other =>
      -- The first name is on one side or the other, and the rest is as it is.
      simp only [List.mem_cons, rest, Option.mem_toList, Option.some.injEq, beq_true, beq_false,
        Bool.not_eq_true', decide_eq_true_eq, decide_eq_false_iff_not]
      grind

/-- If none is late, all names are bound in front of their directives. -/
theorem vectorsMet_of_nil (none_ : vectorsMet kind false bound stmts = []) :
    vectorsMet kind true bound stmts = vectorNames kind stmts := by
  -- By induction on the statements: none of the names given is late.
  induction stmts generalizing bound with
  | nil => rfl
  | cons first others ih =>
    rw [vectorsMet, List.append_eq_nil_iff] at none_
    rw [vectorsMet, ih none_.2, vectorNames, vectorNames, List.filterMap_cons]
    cases given : first.vectorOf? kind with
    | none => simp
    | some other =>
      have here : other ∈ bound := by simpa [given] using none_.1
      simp [here]

/-- A name that is bound in front of its directive is bound. -/
theorem bound_of_met (met : name ∈ vectorsMet kind true bound stmts) :
    name ∈ bound ∨ name ∈ boundNames stmts := by
  -- By induction on the statements, each of which may bind one name.
  induction stmts generalizing bound with
  | nil => cases met
  | cons first others ih =>
    rw [vectorsMet, List.mem_append] at met
    rcases met with here | later
    · left
      simpa using (List.mem_filter.1 here).2
    · -- It is bound by the first statement, before it, or behind it.
      rcases ih later with before | behind
      · rcases List.mem_append.1 before with first_ | before
        · right
          have named : first.bound? = some name := by simpa using first_
          simp [boundNames, named]
        · exact .inl before
      · right
        cases named : first.bound? <;> simp [boundNames, named] <;> simp_all [boundNames]

end Names

/-- What a vector is recorded as when names are recorded for it one after another. -/
def Addresses.recorded (addresses : Addresses) (names : List String) (old : Option UInt16) :
    Option UInt16 :=
  names.foldl (fun _ name => Entries.get? name addresses) old

/-- The last name decides. -/
theorem Addresses.recorded_eq (addresses : Addresses) (names : List String) (old : Option UInt16) :
    addresses.recorded names old =
      match names.getLast? with
      | some name => Entries.get? name addresses
      | none => old := by
  -- By the end of the list, where the last name stands.
  rcases List.eq_nil_or_concat names with rfl | ⟨front, name, rfl⟩
  · rfl
  · simp [recorded]

/-- Names that have addresses are recorded as they would be under more addresses. -/
theorem Addresses.recorded_extended {old new : Addresses} (extended : old.ExtendedBy new)
    {names : List String} (all : ∀ name ∈ names, old.Has name) (before : Option UInt16) :
    old.recorded names before = new.recorded names before := by
  -- Only the last of the names decides, and it has its address under both.
  rw [recorded_eq, recorded_eq]
  cases last : names.getLast? with
  | none => rfl
  | some name =>
    obtain ⟨address, found⟩ := Option.isSome_iff_exists.1 (all name (List.mem_of_getLast? last))
    simp only [found, extended found]

namespace Layout

variable {session : Session} {kind : VectorKind} {state middle state' : Layout}

/-- The names of the vectors of a kind that wait. -/
def waitingVectors (kind : VectorKind) (state : Layout) : List String :=
  state.pending.filterMap fun item => item.stmt.vectorOf? kind

/-- A step that tries names for a kind of vector one after another: those that have addresses are
recorded, and the others wait. -/
structure Records (kind : VectorKind) (names : List String) (state state' : Layout) : Prop where
  /-- The last name with an address decides. -/
  vectors : Entries.get? kind.name state'.vectors =
    state.addresses.recorded (names.filter fun name => decide (state.addresses.Has name))
      (Entries.get? kind.name state.vectors)
  /-- Names without an address wait. -/
  waiting : state'.waitingVectors kind = state.waitingVectors kind ++
    names.filter fun name => !decide (state.addresses.Has name)

/-- A step that leaves vectors and what waits alone. -/
theorem records_nothing (vectors : state'.vectors = state.vectors)
    (pending : state'.pending = state.pending) : Records kind [] state state' := by
  -- Without names nothing is recorded and nothing waits.
  constructor
  · rw [vectors]
    rfl
  · simp [waitingVectors, pending]

/-- Names that are tried under the same addresses are tried one after another. -/
theorem Records.append {first second : List String} (early : Records kind first state middle)
    (late : Records kind second middle state') (same : middle.addresses = state.addresses) :
    Records kind (first ++ second) state state' := by
  -- What the first names record is recorded over by those of the second that have an address.
  constructor
  · rw [late.vectors, early.vectors, same, List.filter_append]
    simp [Addresses.recorded]
  · rw [late.waiting, early.waiting, same, List.filter_append, List.append_assoc]

/-- The names of two kinds of vectors differ. -/
theorem VectorKind.name_inj {other : VectorKind} : other.name = kind.name ↔ other = kind := by
  -- There are three kinds, with three names.
  cases other <;> cases kind <;> decide

/-- Recording an address for a kind of vector replaces that of this kind. -/
theorem get?_insert_vector {other : VectorKind} {address : UInt16} {vectors : Addresses} :
    Entries.get? kind.name (Entries.insert other.name address vectors) =
      if other = kind then some address else Entries.get? kind.name vectors := by
  -- Vectors are entered under the names of their kinds, which differ.
  rw [Entries.get?_insert]
  by_cases same : other = kind <;> simp [same, VectorKind.name_inj]

/-- Trying an item tries the name of a vector, if it is one. -/
theorem retry_records {item : Deferred} (kind : VectorKind)
    (ran : retry session item state = .ok () state') :
    Records kind (item.stmt.vectorOf? kind).toList state state' := by
  -- Vectors are looked up by name; other items leave the record alone.
  cases item with
  | instruction | data =>
    -- Such an item is no vector: it waits for itself, or its bytes are written.
    cases retry_tried ran with
    | waits => exact ⟨rfl, by simp [waitingVectors, Deferred.stmt, Stmt.vectorOf?]⟩
    | written => exact records_nothing rfl rfl
    | recorded done =>
      simp only [Deferred.attempt, except_bind_eq_ok, except_pure_eq_ok,
        Option.map_eq_some_iff] at done
      obtain ⟨_, -, _, -, same⟩ := done
      cases same
  | vector other name pos =>
    rw [retry_eq, Deferred.attempt] at ran
    cases found : Entries.get? name state.addresses with
    | none =>
      -- The name waits.
      simp only [found, Option.map_none, EStateM.Result.ok.injEq, true_and] at ran
      have lacks : ¬ state.addresses.Has name := by simp [Addresses.Has, found]
      subst ran
      by_cases same : other = kind <;>
        constructor <;> simp [waitingVectors, Deferred.stmt, Stmt.vectorOf?, same, lacks,
          Addresses.recorded]
    | some address =>
      -- The name is recorded, for its own kind.
      simp only [found, Option.map_some, complete, modify_eq_ok] at ran
      have has : state.addresses.Has name := by simp [Addresses.Has, found]
      subst ran
      by_cases same : other = kind <;>
        constructor <;> simp [waitingVectors, Deferred.stmt, Stmt.vectorOf?, same, has,
          Addresses.recorded, get?_insert_vector, found]

/-- A round tries the names of all vectors among its items, in their order. -/
theorem retryAll_records {items : List Deferred} (kind : VectorKind)
    (ran : retryAll session items state = .ok () state') :
    Records kind (items.filterMap fun item => item.stmt.vectorOf? kind) state state' := by
  -- By induction on the items; the addresses stay from one to the next.
  induction items generalizing state with
  | nil =>
    rw [retryAll, pure_eq_ok] at ran
    obtain ⟨-, rfl⟩ := ran
    exact records_nothing rfl rfl
  | cons item others ih =>
    simp only [retryAll, bind_eq_ok] at ran
    obtain ⟨_, middle, tried, ran⟩ := ran
    have records := (retry_records kind tried).append (ih ran) (retry_rests tried).addresses
    cases given : item.stmt.vectorOf? kind <;> simpa [given] using records

/-- Names are tried as they are behind steps that leave vectors and what waits, and addresses as well if
there is a name. -/
theorem Records.behind {names : List String} (records : Records kind names middle state')
    (vectors : middle.vectors = state.vectors) (pending : middle.pending = state.pending)
    (addresses : names ≠ [] → middle.addresses = state.addresses) :
    Records kind names state state' := by
  -- Without names nothing is asked about the addresses.
  cases names with
  | nil =>
    constructor
    · rw [records.vectors, vectors]
      rfl
    · rw [records.waiting, waitingVectors, pending]
      rfl
  | cons name others =>
    have early : Records kind [] state middle := records_nothing vectors pending
    exact early.append records (addresses nofun)

/-- A statement of the walk tries the name of a vector, if it is a directive for one. -/
theorem stmt_records {s : Stmt} (kind : VectorKind) (ran : stmt session s state = .ok () state') :
    Records kind (s.vectorOf? kind).toList state state' := by
  -- A statement that needs no address is no directive for a vector.
  cases (stmt_step ran).tries with
  | nothing needless pending vectors =>
    -- A directive for a vector needs an address.
    have other : s.vectorOf? kind = none := by
      unfold Stmt.vectorOf?
      split
      · cases needless
      · rfl
    rw [other]
    exact records_nothing vectors pending
  | item item between tried same pending vectors addresses =>
    subst same
    refine (retry_records kind tried).behind vectors pending fun given => addresses ?_
    -- A variable binds a name, but it is no vector.
    cases item with
    | data => exact absurd rfl given
    | instruction | vector => rfl

/-- The walk records the vectors whose names are bound in front of their directives, and lets the others
wait. -/
theorem walk_records_vectors {stmts : List Stmt} {bound : List String} (kind : VectorKind)
    {pieces : List Piece}
    (tracks : Tracks session state.addresses pieces state.pending state.rom) (known : state.Known)
    (agrees : ∀ name, state.addresses.Has name ↔ name ∈ bound)
    (ran : walk session stmts state = .ok () state') :
    Entries.get? kind.name state'.vectors =
        state'.addresses.recorded (vectorsMet kind true bound stmts)
          (Entries.get? kind.name state.vectors) ∧
      state'.waitingVectors kind = state.waitingVectors kind ++ vectorsMet kind false bound stmts := by
  -- The names that are bound so far are those that have addresses.
  induction stmts generalizing state bound pieces with
  | nil =>
    -- Without statements nothing is recorded.
    rw [walk, pure_eq_ok] at ran
    obtain ⟨-, rfl⟩ := ran
    exact ⟨rfl, (List.append_nil _).symm⟩
  | cons first others ih =>
    simp only [walk, bind_eq_ok] at ran
    obtain ⟨_, next, stepped, ran⟩ := ran
    have step := stmt_step stepped
    -- What is known after the first statement, to be used for the others.
    have tracked := step.tracks tracks
    have binds := step.binds known
    have agreed : ∀ name, next.addresses.Has name ↔ name ∈ first.bound?.toList ++ bound := by
      intro name
      rw [step.names, agrees, List.mem_append, Option.mem_toList, or_comm]
    obtain ⟨vectors, waiting⟩ := ih tracked binds.known agreed ran
    have records := stmt_records kind stepped
    have extended := binds.addresses.trans (walk_binds tracked ran binds.known).1.addresses
    have test : ∀ name, decide (state.addresses.Has name) = decide (name ∈ bound) := fun name =>
      decide_eq_decide.2 (agrees name)
    constructor
    · -- What is recorded now has the address that it keeps.
      have here : ∀ name ∈ (first.vectorOf? kind).toList.filter fun name =>
          decide (state.addresses.Has name), state.addresses.Has name := by
        intro name inside
        exact of_decide_eq_true (List.mem_filter.1 inside).2
      rw [vectors, records.vectors, Addresses.recorded_extended extended here]
      simp only [Addresses.recorded, vectorsMet, List.foldl_append, test, beq_true]
    · -- What is not bound yet waits, in the order of the statements.
      rw [waiting, records.waiting, List.append_assoc]
      simp only [vectorsMet, test, beq_false]

/-- After all rounds a vector is what the names that are bound in front of their directives are recorded
as, and then the others. All of these names have addresses. -/
theorem recorded_vectors {stmts : List Stmt} {image : Image}
    (returned : layout session stmts = .ok image) :
    ∃ final, walk session stmts {} = .ok () final ∧ ∀ kind,
      (∀ name ∈ vectorNames kind stmts, final.addresses.Has name) ∧
      Entries.get? kind.name image.vectors =
        final.addresses.recorded (vectorsMet kind true [] stmts ++ lateVectors kind stmts) none := by
  -- The names that are bound in front are recorded on the walk, the late ones in the first round.
  obtain ⟨final, rom, last, walked, round, completed, rfl⟩ := layout_completed returned
  refine ⟨final, walked, fun kind => ?_⟩
  have nothing : ∀ name, Addresses.Has [] name ↔ name ∈ [] := by simp [Addresses.Has, Entries.get?]
  obtain ⟨vectors, waiting⟩ :=
    walk_records_vectors kind (Tracks.start session) known_start nothing walked
  have records := retryAll_records kind round
  have names : (final.pending.filterMap fun item => item.stmt.vectorOf? kind) =
      lateVectors kind stmts := waiting
  rw [names] at records
  -- Nothing waits in the end, so every late name has an address.
  have late : ∀ name ∈ lateVectors kind stmts, final.addresses.Has name := by
    have none_ := records.waiting
    simp only [waitingVectors, completed, List.filterMap_nil, List.nil_append] at none_
    intro name inside
    simpa using List.filter_eq_nil_iff.1 none_.symm name inside
  refine ⟨fun name given => ?_, ?_⟩
  · -- An early name is bound in front of its directive, a late one in the first round.
    rcases (mem_vectorNames []).1 given with early | inside
    · rw [walk_names_start walked]
      exact (bound_of_met early).resolve_left List.not_mem_nil
    · exact late name inside
  · -- The late ones are recorded behind the early ones.
    have all : (lateVectors kind stmts).filter (fun name => decide (final.addresses.Has name)) =
        lateVectors kind stmts :=
      List.filter_eq_self.2 fun name inside => decide_eq_true (late name inside)
    have recorded := records.vectors
    simp only [all, vectors] at recorded
    rw [Addresses.recorded, List.foldl_append]
    exact recorded

end Layout

/-- Which of several directives for a kind of vector decides. It is the last one whose name is bound
behind it, if there is such a one, and else the last one. So the vector has the address of the name in
the last directive if, and only if, no other name is late or the last late name has the same address. -/
theorem last_late_vector_decides {session : Session} {stmts : List Stmt} {image : Image}
    (returned : layout session stmts = .ok image) :
    ∃ final, Layout.walk session stmts {} = .ok () final ∧
      ∀ kind last, (vectorNames kind stmts).getLast? = some last →
        final.addresses.Has last ∧
        Entries.get? kind.name image.vectors =
          Entries.get? ((lateVectors kind stmts).getLast?.getD last) final.addresses ∧
        (Entries.get? kind.name image.vectors = Entries.get? last final.addresses ↔
          ∀ late, (lateVectors kind stmts).getLast? = some late →
            Entries.get? late final.addresses = Entries.get? last final.addresses) := by
  -- Of names that are recorded one after another the last one stands in the end.
  obtain ⟨final, walked, vectors⟩ := Layout.recorded_vectors returned
  refine ⟨final, walked, fun kind last named => ?_⟩
  obtain ⟨all, recorded⟩ := vectors kind
  have decided : Entries.get? kind.name image.vectors =
      Entries.get? ((lateVectors kind stmts).getLast?.getD last) final.addresses := by
    rw [recorded, Addresses.recorded_eq, List.getLast?_append]
    cases late : (lateVectors kind stmts).getLast? with
    | some name => rfl
    | none =>
      -- No name is late, so all are bound in front of their directives.
      have nothing : lateVectors kind stmts = [] := List.getLast?_eq_none_iff.1 late
      rw [vectorsMet_of_nil nothing, named]
      rfl
  refine ⟨all last (List.mem_of_getLast? named), decided, ?_⟩
  rw [decided]
  cases (lateVectors kind stmts).getLast? <;> simp

/-- Two directives for one vector, the first to a label behind them and the last to one in front. -/
def vectorsAround : List Stmt :=
  [.item (.directive (.romOrg 0x8000 none) default), .item (.label ⟨"a", default⟩),
    .item (.directive (.incbin "table" [0x60]) default),
    .item (.directive (.vector .nmi "b") default), .item (.directive (.vector .nmi "a") default),
    .item (.label ⟨"b", default⟩)]

/-- The vector has the address of the label behind the directives. -/
theorem vectorsAround_laid :
    ∃ image, layout { cpu := .nmos } vectorsAround = .ok image ∧
      image.vectors = [("nmi", 0x8001)] := by
  -- The layout is evaluated.
  have evaluated : (layout { cpu := .nmos } vectorsAround).toOption.map Image.vectors =
      some [("nmi", 0x8001)] := by
    decide +kernel
  exact Layout.exists_of_evaluated evaluated

/-- The name in the first directive decides, because it is the late one. -/
theorem vectorsAround_decided :
    ∃ image final, layout { cpu := .nmos } vectorsAround = .ok image ∧
      Layout.walk { cpu := .nmos } vectorsAround {} = .ok () final ∧
      Entries.get? "nmi" image.vectors = Entries.get? "b" final.addresses := by
  -- The directive with `a` is the early one, so that the general rule leaves `b`.
  obtain ⟨image, returned, -⟩ := vectorsAround_laid
  obtain ⟨final, walked, decided⟩ := last_late_vector_decides returned
  exact ⟨image, final, returned, walked, (decided .nmi "a" (by decide)).2.1⟩

/-- The name in the last directive has another address. -/
theorem vectorsAround_not_last :
    ∃ image final address, layout { cpu := .nmos } vectorsAround = .ok image ∧
      Layout.walk { cpu := .nmos } vectorsAround {} = .ok () final ∧
      (vectorNames .nmi vectorsAround).getLast? = some "a" ∧
      Entries.get? "a" final.addresses = some address ∧
      Entries.get? "nmi" image.vectors ≠ some address := by
  -- The walk is evaluated as well, for the address of the last name.
  obtain ⟨image, returned, vectors⟩ := vectorsAround_laid
  have evaluated : succeedsWith
      (fun _ (final : Layout) => Entries.get? "a" final.addresses == some 0x8000)
      (Layout.walk { cpu := .nmos } vectorsAround {}) = true := by
    decide +kernel
  obtain ⟨_, final, walked, bound⟩ := exists_of_succeedsWith evaluated
  refine ⟨image, final, 0x8000, returned, walked, by decide, eq_of_beq bound, ?_⟩
  rw [vectors]
  decide

end CrossAsm
