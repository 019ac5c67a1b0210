import CrossAsm.Proofs.Nesting.Declarations
import CrossAsm.Proofs.Resolve.Lasting

/-! Where generated branches go. A branch names the label that was minted for it, and that name is
looked up like any other one, from the namespace of the conditional outward. The label stands in the
global namespace from when it is minted to the end, so the branch goes there unless a scope around
the conditional has a variable of that name, which is then taken for the target. -/

namespace CrossAsm

/-! ### Minted labels -/

namespace Session

variable {session later : Session} {count : Nat}

/-- The label of a number stands in the global namespace. -/
def Stands (session : Session) (count : Nat) : Prop :=
  ∃ label, Entries.get? (.global, labelName count) session.scopes.symbols =
    some (.label label) ∧ label.name = labelName count

/-- A label that stands goes on to stand. -/
theorem Stands.onward (stands : session.Stands count) (onward : session.Onward later) :
    later.Stands count := by
  obtain ⟨label, here, named⟩ := stands
  -- A label stays as it is, or another label is minted in its place.
  have becomes := onward.comes .global (labelName count)
  rw [here] at becomes
  generalize there : Entries.get? (.global, labelName count) later.scopes.symbols = symbol at becomes
  cases becomes with
  | same => exact ⟨label, there, named⟩
  | minted _ _ _ named' => exact ⟨_, there, named'⟩

/-- Every label that is minted stands. -/
theorem MintsTo.stands (minted : session.MintsTo later) (first : session.labels ≤ count)
    (last : count < later.labels) : later.Stands count := by
  -- By induction on the labels: the last one has just been defined, and the others go on to stand.
  induction minted with
  | refl => omega
  | @mint middle _ pos ih =>
    by_cases newest : count = middle.labels
    · subst newest
      refine ⟨⟨labelName middle.labels, pos⟩, ?_, rfl⟩
      simp [Session.mint, ScopeTable.get?_define, Symbol.name]
    · have earlier : count < middle.labels := by
        have less : count < middle.labels + 1 := last
        omega
      exact (ih earlier).onward (middle.mint_onward pos)

end Session

namespace ScopeTable

/-- A name that stands in the global namespace leads to the same scope at any later time, and to what
has become of the symbol there. -/
theorem lookup?_comes {table later : ScopeTable} {limit : Nat} (comes : table.Comes limit later)
    {name : String} {ns owner : Namespace} {symbol : Symbol}
    (found : table.lookup? name ns = some (owner, symbol))
    (global : (Entries.get? (.global, name) table.symbols).isSome) :
    ∃ symbol', later.lookup? name ns = some (owner, symbol') ∧
      Symbol.Becomes limit owner name (some symbol) (some symbol') := by
  -- Scope by scope from the inside: one without the name has it later only if it is the global one.
  unfold lookup? at found ⊢
  generalize ns.ancestors = scopes at found ⊢
  induction scopes with
  | nil => cases found
  | cons first outer ih =>
    rw [List.findSome?_cons] at found ⊢
    have becomes := comes first name
    -- By whether the innermost scope has the name.
    cases before : Entries.get? (first, name) table.symbols with
    | none =>
      rw [before] at becomes
      simp only [before, Option.map_none] at found
      have none' : Entries.get? (first, name) later.symbols = none := by
        generalize Entries.get? (first, name) later.symbols = after at becomes
        cases becomes with
        | same => rfl
        | minted isGlobal =>
          rw [← isGlobal, before] at global
          cases global
      simp only [none', Option.map_none]
      exact ih found
    | some old =>
      -- It has the name, and answers at both times.
      simp only [before, Option.map_some, Option.some.injEq, Prod.mk.injEq] at found
      obtain ⟨rfl, rfl⟩ := found
      rw [before] at becomes
      generalize Entries.get? (first, name) later.symbols = after at becomes ⊢
      cases becomes with
      | same => exact ⟨old, rfl, .same _⟩
      | entered => exact ⟨_, rfl, .entered⟩
      | minted isGlobal counted reserved named =>
        exact ⟨_, rfl, .minted isGlobal counted reserved named⟩

end ScopeTable

/-! ### What a minted name is bound to -/

/-- The full name of something in a scope is not its own name. -/
theorem Namespace.qualify_ne {owner : Namespace} (inner : owner ≠ .global) (name : String) :
    owner.qualify name ≠ name := by
  have notGlobal : owner.isGlobal = false := by
    obtain ⟨path⟩ := owner
    cases path with
    | nil => exact absurd rfl inner
    | cons => rfl
  intro same
  -- The path in front makes it longer.
  have length := congrArg String.length same
  simp only [Namespace.qualify, notGlobal, Bool.false_eq_true, if_false, String.length_append]
    at length
  have dot : ".".length = 1 := rfl
  omega

/-- A name that stands in the global namespace leads somewhere from everywhere. -/
theorem ScopeTable.exists_lookup? {table : ScopeTable} {name : String}
    (global : (Entries.get? (.global, name) table.symbols).isSome) (ns : Namespace) :
    ∃ owner symbol, table.lookup? name ns = some (owner, symbol) := by
  obtain ⟨inner, scopes, -⟩ := ns.ancestors_eq
  have found : (table.lookup? name ns).isSome := by
    rw [ScopeTable.lookup?, List.isSome_findSome?, List.any_eq_true]
    exact ⟨.global, by simp [scopes], by simpa using global⟩
  obtain ⟨⟨owner, symbol⟩, found⟩ := Option.isSome_iff_exists.1 found
  exact ⟨owner, symbol, found⟩

/-- A name is bound to the label that stands under it, or else to the variable that it leads to. -/
theorem View.bind_minted {view : View} {later : Session} {count limit : Nat} {e : Expr}
    (tidy : view.scopes.Tidy) (comes : view.scopes.Comes limit later.scopes)
    {label : Label}
    (stands : Entries.get? (.global, Session.labelName count) view.scopes.symbols =
      some (.label label))
    (bound : view.bind (.name (Session.labelName count)) = .ok (some e)) :
    ∃ owner symbol, later.scopes.lookup? (Session.labelName count) view.ns = some (owner, symbol) ∧
      ((∀ var, symbol ≠ .var var) → e = .ref (Session.labelName count)) ∧
      ∀ var, symbol = .var var → owner ≠ .global ∧
        (var.address = none → e = .ref (owner.qualify (Session.labelName count))) ∧
        ∀ n, var.address = some (.number n) → e = .number n := by
  -- The name leads to the label, or to something in a scope further inside.
  obtain ⟨owner, symbol, found⟩ := ScopeTable.exists_lookup? (by rw [stands]; rfl) view.ns
  obtain ⟨symbol', found', becomes⟩ := ScopeTable.lookup?_comes comes found (by rw [stands]; rfl)
  have here := ScopeTable.get?_of_lookup? found
  refine ⟨owner, symbol', found', ?_⟩
  obtain ⟨fuel, value, known, folded⟩ := bind_name_symbol found bound
  -- Whatever is looked up, what it stands for is not folded any further.
  have leaf : ∀ key, value = .ref key → e = .ref key := by
    rintro key rfl
    rw [view.fold_settled (e := .ref key) trivial] at folded
    cases folded
    rfl
  cases symbol with
  | label other =>
    have named : other.name = Session.labelName count := tidy.named here
    cases known
    refine ⟨fun _ => named ▸ leaf _ rfl, ?_⟩
    -- A label does not become a variable.
    rintro var rfl
    cases becomes
  | function func =>
    -- A function that was entered has the label of its own name.
    rw [symbolAt] at known
    split at known
    · cases known
    · obtain ⟨entry, entered, rfl⟩ := Option.map_eq_some_iff.1 (Except.ok.inj known)
      have named : entry = Session.labelName count := by
        rcases tidy.entry here with missing | own
        · rw [missing] at entered
          cases entered
        · exact Option.some.inj (entered.symm.trans own)
      refine ⟨fun _ => named ▸ leaf _ rfl, ?_⟩
      rintro var rfl
      cases becomes
  | type d => cases known
  | var var =>
    -- The label stands in the global namespace, so the variable is in another one.
    have inner : owner ≠ .global := by
      rintro rfl
      rw [stands] at here
      cases here
    have same : symbol' = .var var := by
      cases becomes with
      | same => rfl
      | minted isGlobal => exact absurd isGlobal inner
    subst same
    refine ⟨fun none => absurd rfl (none var), ?_⟩
    rintro _ ⟨⟩
    have named : var.name = Session.labelName count := tidy.named here
    -- Layout places the variable, or it is fixed already.
    refine ⟨inner, fun free => ?_, fun n fixed => ?_⟩
    · rw [bind_name_free found free bound, named]
    · simp only [symbolAt, variableAt, fixed, except_bind_eq_ok] at known
      obtain ⟨_, -, known⟩ := known
      cases known
      cases folded
      rfl

/-- Take a conditional that is met while statements are resolved, and a branch or jump of its code to
a label that was minted for it. At the end the branch is there, with a mode, and its operand is the
reference to that label unless the name of the label leads from the conditional to a variable. Such a
variable stands in a scope around the conditional, and the branch goes to the address that layout gives
the variable, which is not the label, or to the number that the variable is fixed at. -/
theorem generated_branch_operand {stmts flat : List Stmt} {session session' : Session}
    (tidy : session.scopes.Tidy) (ran : resolve stmts session = .ok flat session')
    {cond : Conditional Stmt} {before after : Session} {code : List Stmt}
    (met : (before, .conditional cond) ∈ Resolve.visits stmts session)
    (lowered : Lowering.conditional cond before = .ok code after) {op : Op} {count : Nat}
    (first : before.labels ≤ count) (last : count < after.labels)
    (emitted : cond.site.goto op (Session.labelName count) ∈ code) :
    ∃ e mode owner symbol,
      .item (.instruction ⟨op, .address e, some mode, cond.ns, cond.pos⟩) ∈ flat ∧
      session'.scopes.lookup? (Session.labelName count) cond.ns = some (owner, symbol) ∧
      ((∀ var, symbol ≠ .var var) → e = .ref (Session.labelName count)) ∧
      ∀ var, symbol = .var var → owner ≠ .global ∧
        (var.address = none → e = .ref (owner.qualify (Session.labelName count)) ∧
          e ≠ .ref (Session.labelName count)) ∧
        ∀ n, var.address = some (.number n) → e = .number n := by
  -- The code is read in a later round, and the label stands from then on.
  have became : Resolve.stmt (.conditional cond) before = .ok (.replaced code) after := by
    simp only [Resolve.stmt, bind_eq_ok, pure_eq_ok]
    exact ⟨code, after, lowered, rfl, rfl⟩
  have unresolved : (Resolve.Outcome.replaced code).unresolved ≠ 0 :=
    Nat.ne_of_gt (List.length_pos_of_mem emitted)
  obtain ⟨count', left, stmts', middle, ran', tidied, onward, among⟩ :=
    Resolve.exists_run_behind ran tidy met became unresolved
  -- The label is minted by then.
  have minted : middle.Stands count :=
    ((Lowering.conditional_emits lowered).1.stands first last).onward onward
  -- In some round the branch is settled, and as it is then it is there at the end.
  obtain ⟨early, there⟩ := Resolve.exists_visit ran' (among emitted)
  obtain ⟨found, resolved, there, settled⟩ := Resolve.instruction_settles ran' there
  have lasts := Resolve.instruction_lasts ran' tidied there settled
  obtain ⟨operand, mode, bound, -, rfl⟩ := Resolve.instruction_settled settled
  obtain ⟨before', behind⟩ := (Resolve.visit_onward ran' tidied).2 _ _ there
  obtain ⟨label, stands, -⟩ := minted.onward before'
  -- The operand of the branch is what the name is bound to.
  obtain ⟨e, known, rfl⟩ : ∃ e, (Resolve.viewOf found cond.ns cond.pos).bind
      (.name (Session.labelName count)) = .ok (some e) ∧ operand = .address e := by
    simp only [Resolve.boundOperand, Instruction.unresolved, Operand.value?, except_bind_eq_ok,
      except_pure_eq_ok, Option.map_eq_some_iff, Operand.map] at bound
    obtain ⟨_, known, e, rfl, rfl⟩ := bound
    exact ⟨e, known, rfl⟩
  -- A minted name leads to its label, or to a variable that captures it.
  obtain ⟨owner, symbol, leads, direct, captured⟩ :=
    View.bind_minted (tidied.comes before'.comes) behind.comes stands known
  refine ⟨e, mode, owner, symbol, lasts, leads, direct, fun var same => ?_⟩
  obtain ⟨inner, free, fixed⟩ := captured var same
  refine ⟨inner, fun none => ⟨free none, ?_⟩, fixed⟩
  rw [free none]
  intro same
  exact Namespace.qualify_ne inner _ (Expr.ref.inj same)

/-- A variable that is named like the first label and fixed at an address. -/
def shadowingVariable : Variable where
  type := "byte"
  name := "_L0"
  shared := false
  dim := .scalar
  address := some (.number 0x8000)
  init := none
  ns := ⟨["main"]⟩
  size := none
  pos := default

/-- The session in which it is declared. -/
def shadowing : Session where
  cpu := .nmos
  scopes := ScopeTable.define {} (.var shadowingVariable) ⟨["main"]⟩

/-- A conditional in the same scope. -/
def shadowedConditional : Conditional Stmt where
  form := .ifThen
  first :=
    { clause := ⟨.ifTest ⟨.near, .is, .zero⟩, default⟩
      body := [.item (.instruction (.unresolved .inx .none ⟨["main"]⟩ default))] }
  ns := ⟨["main"]⟩

/-- Whether a symbol is a variable that is fixed at a number. -/
def Symbol.isFixedAt (address : Int64) : Symbol → Bool
  | .var found => found.address == some (.number address)
  | _ => false

/-- The branch around the instruction goes to the address of the variable, and not to the label. -/
theorem shadowedConditional_captured :
    ∃ flat session', resolve [.conditional shadowedConditional] shadowing = .ok flat session' ∧
      ∃ e mode, .item (.instruction ⟨.bne, .address e, some mode, ⟨["main"]⟩, default⟩) ∈ flat ∧
        e = .number 0x8000 ∧ e ≠ .ref (Session.labelName 0) := by
  -- The rounds and the lowering are evaluated, and the theorem tells what is bound.
  have tidy : shadowing.scopes.Tidy := ScopeTable.tidy_empty.define (.var shadowingVariable) rfl
  have resolving : succeedsWith (fun _ session' =>
      (session'.scopes.lookup? (Session.labelName 0) ⟨["main"]⟩).any fun found =>
        found.2.isFixedAt 0x8000)
      (resolve [.conditional shadowedConditional] shadowing) = true := by
    decide +kernel
  have lowering : succeedsWith (fun code after => after.labels == 1 &&
        decide (shadowedConditional.site.goto .bne (Session.labelName 0) ∈ code))
      (Lowering.conditional shadowedConditional shadowing) = true := by
    decide +kernel
  obtain ⟨flat, session', ran, fixedThere⟩ := exists_of_succeedsWith resolving
  obtain ⟨code, after, lowered, passed⟩ := exists_of_succeedsWith lowering
  obtain ⟨labels, emitted⟩ : after.labels = 1 ∧
      shadowedConditional.site.goto .bne (Session.labelName 0) ∈ code := by
    simpa using passed
  -- The conditional is the first statement that is visited.
  have met : (shadowing, .conditional shadowedConditional) ∈
      Resolve.visits [.conditional shadowedConditional] shadowing :=
    List.mem_append_left _ (List.mem_cons_self ..)
  obtain ⟨e, mode, owner, symbol, inside, leads, -, captured⟩ :=
    generated_branch_operand tidy ran met lowered (Nat.zero_le 0) (by omega) emitted
  refine ⟨flat, session', ran, e, mode, inside, ?_⟩
  -- The name leads to the variable.
  change session'.scopes.lookup? _ ⟨["main"]⟩ = _ at leads
  rw [leads] at fixedThere
  -- It is the variable, for nothing else is fixed at an address.
  cases symbol with
  | var var =>
    obtain ⟨-, -, fixed⟩ := captured var rfl
    have number : e = .number 0x8000 := fixed _ (by simpa [Symbol.isFixedAt] using fixedThere)
    rw [number]
    exact ⟨rfl, nofun⟩
  | function | label | type => cases fixedThere

end CrossAsm
