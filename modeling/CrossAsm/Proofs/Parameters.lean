import CrossAsm.Proofs.Nesting.Renamed
import CrossAsm.Proofs.Resolve.Termination

/-! The parameters of an inline function are bound: which names they have makes no difference to
what a program is resolved to, as long as they are not asked for outside of the statements that are
spliced in. -/

namespace CrossAsm

namespace Resolve

variable {s t : Session} {stmts stmts' : List Stmt}

/-- Matching statements become the same. -/
theorem stmt_matches {x y : Stmt} (alike : x.Matches y) (follows : s.Follows t) :
    Lockstep Session.Follows (stmt x) (stmt y) s t := by
  -- The statements are the same, or both are inline functions.
  cases alike with
  | same => exact stmt_together x follows
  | @inline f g first second =>
    -- Neither leaves anything.
    have nothing : ∀ {func : Function Stmt}, func.decl.isInline = true →
        stmt (.function func) = pure (.replaced []) := by
      intro func isInline
      simp [stmt, Lowering.function, isInline]
    rw [nothing first, nothing second]
    exact .done follows

/-- A round makes the same of matching statements. -/
theorem round_matches (alike : List.Forall₂ Stmt.Matches stmts stmts') (follows : s.Follows t) :
    Lockstep Session.Follows (round stmts) (round stmts') s t := by
  -- By induction on the statements that match.
  induction alike generalizing s t with
  | nil => exact .done follows
  | cons first _ ih =>
    refine (stmt_matches first follows).andThen fun here s t follows => ?_
    exact (ih follows).andThen fun rest s t follows => .done follows

/-- There is as much to do about matching statements. -/
theorem burdenAll_matches (cost : List String → Nat)
    (alike : List.Forall₂ Stmt.Matches stmts stmts') :
    burdenAll cost stmts' = burdenAll cost stmts := by
  -- By induction on the statements that match; an inline function is no burden.
  induction alike with
  | nil => rfl
  | cons first _ ih =>
    rw [burdenAll_cons, burdenAll_cons, ih]
    cases first with
    | same => rfl
    | inline first second => simp [burden, first, second]

/-- A round that leaves as much to do as there was is followed by one that leaves the list, so that
resolving fails. -/
theorem roundsFrom_idle {count left : Nat} {next : Outcome} {flat : List Stmt}
    {middle last : Session} (spliceable : s.scopes.Spliceable)
    (ran : round stmts s = .ok next middle) (waits : next.unresolved ≠ 0)
    (idle : ∀ cost, burdenAll cost next.stmts = burdenAll cost stmts) :
    roundsFrom count left next.stmts middle ≠ .ok flat last := by
  -- Without progress the round after leaves everything, and that is an error.
  intro resolved
  obtain ⟨-, less | ⟨rfl, again, -⟩⟩ := round_progress (inlined spliceable) ran
  · rw [idle] at less
    exact Nat.lt_irrefl _ less
  · cases left with
    | zero => cases resolved
    | succ left =>
      rw [roundsFrom_ok again, if_neg waits, if_pos rfl] at resolved
      cases resolved

/-- The rounds that are left end with the same for matching statements. -/
theorem roundsFrom_matches (spliceable : s.scopes.Spliceable)
    (alike : List.Forall₂ Stmt.Matches stmts stmts') (follows : s.Follows t) (count left : Nat) :
    Lockstep Session.Follows (roundsFrom count left stmts) (roundsFrom count left stmts') s t := by
  -- After one round the statements are the same, so that the other rounds are.
  intro flat last resolved
  cases left with
  | zero => cases resolved
  | succ left =>
    -- A round that fails leaves nothing to compare.
    cases first : round stmts s with
    | error e middle =>
      rw [roundsFrom_error first] at resolved
      cases resolved
    | ok next middle =>
      -- The round succeeds on both sides, with the same statements.
      obtain ⟨middle', first', follows'⟩ := round_matches alike follows first
      rw [roundsFrom_ok first] at resolved
      rw [roundsFrom_ok first']
      by_cases done : next.unresolved = 0
      · rw [if_pos done] at resolved ⊢
        cases resolved
        exact ⟨middle', rfl, follows'⟩
      · rw [if_neg done] at resolved ⊢
        have changed : next.stmts ≠ stmts := by
          intro same
          rw [if_pos same] at resolved
          cases resolved
        rw [if_neg changed] at resolved
        -- If it left the other list, then it left as much to do as there was.
        have changed' : next.stmts ≠ stmts' := by
          intro same
          refine roundsFrom_idle spliceable first done (fun cost => ?_) resolved
          rw [same, burdenAll_matches cost alike]
        rw [if_neg changed']
        exact roundsFrom_together _ _ _ follows' resolved

end Resolve

/-- Statements are nested and then resolved to a flat list. -/
def ResolvesTo (session : Session) (stmts flat : List Stmt) : Prop :=
  ∃ nested middle last, nest stmts session = .ok nested middle ∧
    resolve nested middle = .ok flat last

/-- With another name for a parameter a program is resolved to what it was. -/
theorem Excerpt.Renameable.resolvesTo {program : Excerpt} {p q : String}
    (renameable : program.Renameable p q) {cpu : Cpu} {flat : List Stmt}
    (resolves : ResolvesTo { cpu } program.stmts flat) :
    ResolvesTo { cpu } (program.respelled (.rename p q)).stmts flat := by
  -- The program is nested to statements that match, and these are resolved alike.
  obtain ⟨nested, middle, last, nests, resolves⟩ := resolves
  obtain ⟨nested', middle', nests', follows, alike⟩ := program.nest_renamed renameable nests
  have spliceable : middle.scopes.Spliceable := by
    have flat : ∀ stmt ∈ program.stmts, stmt.Spliceable := by
      intro stmt inside
      obtain ⟨item, rfl⟩ := program.stmts_flat stmt inside
      exact .item item
    exact (nest_spliceable flat).kept (Session.Staged.new cpu).spliceable nests
  obtain ⟨last', resolves', -⟩ :=
    Resolve.roundsFrom_matches spliceable alike follows 0 Resolve.maxRounds resolves
  exact ⟨nested', middle', last', nests', resolves'⟩

/-- The parameters of an inline function are bound: if one of them gets another name, in the head of
the function and wherever a value in its block mentions it, then the program is resolved if it was
before, and to the same statements. The function must not use the new name; whether anything else in
the program has the new name or the old one makes no difference. The parameter must not be mentioned
in the address or the length of a variable in the block: the symbol of the variable is asked for
them, and in it no argument takes the place of the parameter. -/
theorem parameters_bound {program : Excerpt} {p q : String} (renameable : program.Renameable p q)
    (cpu : Cpu) (flat : List Stmt) :
    ResolvesTo { cpu } program.stmts flat ↔
      ResolvesTo { cpu } (program.respelled (.rename p q)).stmts flat := by
  refine ⟨renameable.resolvesTo, fun resolves => ?_⟩
  -- The old name may be given back, and then the program is what it was.
  have back := renameable.symm.resolvesTo resolves
  rwa [renameable.back] at back

/-- A variable of one byte, which may be fixed at an address. -/
def byteVariable (name : String) (address : Option Expr) : Variable where
  type := "byte"
  name := name
  shared := false
  dim := .scalar
  address := address
  init := none
  ns := .global
  size := none
  pos := default

/-- A program with a variable named like the parameter of an inline function, which mentions the
parameter in an initializer, an operand, an argument and the value of a case. The function that it
calls has a parameter with the new name. -/
def borrowing : Excerpt where
  before := [.var (byteVariable "p" (some (.number 0x10)))]
  decl := ⟨"f", .inline, false, ["p"], default⟩
  begins := default
  body :=
    [.var (byteVariable "x" none), .initializer ⟨.values [.name "p"], default⟩,
     .instruction (.unresolved .lda (.address (.name "p")) .global default),
     .call ⟨"g", [.binary .add (.name "p") (.number 1)], .global, [], default⟩,
     .clause ⟨.switchOn .a, default⟩, .scopeBegin default,
     .clause ⟨.caseOf (.name "p"), default⟩,
     .instruction (.unresolved .inx .none .global default), .scopeEnd default]
  ends := default
  after :=
    [.functionDecl ⟨"g", .inline, false, ["q"], default⟩, .scopeBegin default,
     .instruction (.unresolved .ldx (.address (.name "q")) .global default), .scopeEnd default,
     .functionDecl ⟨"main", .subroutine, false, [], default⟩, .scopeBegin default,
     .call ⟨"f", [.number 0x20], .global, [], default⟩, .scopeEnd default]

/-- The operands of the instructions in a flat list. -/
def operands (flat : List Stmt) : List (Operand Expr) :=
  flat.filterMap fun
    | .item (.instruction line) => some line.operand
    | _ => none

/-- The program is resolved with either name for the parameter, and the argument comes in place of
it. -/
theorem borrowing_renamed :
    borrowing.Renameable "p" "q" ∧ ∃ flat, ResolvesTo { cpu := .nmos } borrowing.stmts flat ∧
      ResolvesTo { cpu := .nmos } (borrowing.respelled (.rename "p" "q")).stmts flat ∧
      (operands flat).take 3 =
        [.address (.number 0x20), .address (.number 0x21), .immediate (.number 0x20)] := by
  -- The rounds are evaluated with the old name, and the theorem gives those with the new one.
  have renameable : borrowing.Renameable "p" "q" := by
    refine ⟨by decide, by decide, by decide, by decide, by decide, ?_⟩
    intro var inside value among
    simp only [borrowing, List.mem_cons, Item.var.injEq, reduceCtorEq, or_false,
      List.not_mem_nil] at inside
    subst inside
    cases among
  have evaluated : succeedsWith (fun nested middle => succeedsWith (fun flat _ =>
        (operands flat).take 3 =
          [.address (.number 0x20), .address (.number 0x21), .immediate (.number 0x20)])
        (resolve nested middle))
      (nest borrowing.stmts { cpu := .nmos }) = true := by
    decide +kernel
  obtain ⟨nested, middle, nests, passed⟩ := exists_of_succeedsWith evaluated
  obtain ⟨flat, last, resolves, operands⟩ := exists_of_succeedsWith passed
  have resolved : ResolvesTo { cpu := .nmos } borrowing.stmts flat :=
    ⟨nested, middle, last, nests, resolves⟩
  exact ⟨renameable, flat, resolved, (parameters_bound renameable .nmos flat).1 resolved,
    of_decide_eq_true operands⟩

/-- A program with a variable named like the parameter of an inline function, which puts another
variable where the parameter says. -/
def capturing : Excerpt where
  before := [.var (byteVariable "p" (some (.number 0x10)))]
  decl := ⟨"f", .inline, false, ["p"], default⟩
  begins := default
  body :=
    [.var (byteVariable "x" (some (.name "p"))),
     .instruction (.unresolved .lda (.address (.name "x")) .global default)]
  ends := default
  after :=
    [.functionDecl ⟨"main", .subroutine, false, [], default⟩, .scopeBegin default,
     .call ⟨"f", [.number 0x20], .global, [], default⟩, .scopeEnd default]

/-- The reference to the variable takes the one that is named like the parameter, and with another
name for the parameter the program is not resolved. -/
theorem capturing_captured :
    (∃ flat, ResolvesTo { cpu := .nmos } capturing.stmts flat ∧
      (operands flat).take 1 = [.address (.number 0x10)]) ∧
    ¬∃ flat, ResolvesTo { cpu := .nmos } (capturing.respelled (.rename "p" "q")).stmts flat := by
  -- The rounds are evaluated with both names.
  have evaluated : succeedsWith (fun nested middle => succeedsWith (fun flat _ =>
        (operands flat).take 1 = [.address (.number 0x10)]) (resolve nested middle))
      (nest capturing.stmts { cpu := .nmos }) = true := by
    decide +kernel
  have renamed : succeedsWith (fun nested middle => succeedsWith (fun _ _ => true)
        (resolve nested middle))
      (nest (capturing.respelled (.rename "p" "q")).stmts { cpu := .nmos }) = false := by
    decide +kernel
  constructor
  · obtain ⟨nested, middle, nests, passed⟩ := exists_of_succeedsWith evaluated
    obtain ⟨flat, last, resolves, operands⟩ := exists_of_succeedsWith passed
    exact ⟨flat, ⟨nested, middle, last, nests, resolves⟩, of_decide_eq_true operands⟩
  · rintro ⟨flat, nested, middle, last, nests, resolves⟩
    simp [nests, resolves, succeedsWith] at renamed

end CrossAsm
