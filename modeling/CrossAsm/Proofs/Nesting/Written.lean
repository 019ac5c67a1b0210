import CrossAsm.Nesting

/-! Statement trees: how they may be written as flat statements, with braces or without where a
single statement is a body, and what nesting is to make of them. -/

namespace CrossAsm

/-- A statement that governs no other. -/
inductive Simple where
  | instruction (line : Instruction)
  | call (c : Call)
  | label (l : Label)
  | var (v : Variable) (init : Option Initializer)
  | ret (r : Return)

/-- One arm of a switch: a value, or none for the default, and the statements it governs. -/
structure Arm (α : Type) where
  /-- The value of a case. -/
  value : Option Expr
  /-- Where the arm stands. -/
  pos : Pos
  /-- The statements. -/
  body : List α

/-- A statement tree of a function. -/
inductive Tree where
  | simple (s : Simple)
  /-- A block that no clause governs, with its two braces. -/
  | block (begins ends : Pos) (body : List Tree)
  | ifThen (test : Test) (pos : Pos) (body : List Tree)
  | ifElse (test : Test) (pos : Pos) (body : List Tree) (elsePos : Pos) (otherwise : List Tree)
  | whileLoop (test : Test) (pos : Pos) (body : List Tree)
  | doWhile (pos : Pos) (body : List Tree) (test : Test) (testPos : Pos)
  | forever (pos : Pos) (body : List Tree)
  | switch (register : Register) (pos : Pos) (arms : List (Arm Tree))

/-! ### What stands on the page -/

/-- The flat statements that a simple statement is written as. -/
def Simple.written : Simple → List Stmt
  | .instruction line => [.item (.instruction line)]
  | .call c => [.item (.call c)]
  | .label l => [.item (.label l)]
  | .var v none => [.item (.var v)]
  | .var v (some init) => [.item (.var v), .item (.initializer init)]
  | .ret r => [.item (.ret r)]

/-- The clause of an arm. -/
def Arm.clause {α : Type} (arm : Arm α) : Clause :=
  ⟨match arm.value with
    | some value => .caseOf value
    | none => .byDefault, arm.pos⟩

/-- Whether an arm is the default. -/
def Arm.isDefault {α : Type} (arm : Arm α) : Bool :=
  arm.value.isNone

/-- Whether a tree may be a body without braces: a simple statement or a conditional. -/
def Tree.standsAlone : Tree → Bool
  | .block .. => false
  | _ => true

/-- A part of a tree that is written on its own. -/
inductive Part where
  | tree (t : Tree)
  /-- Statements one after another. -/
  | list (ts : List Tree)
  /-- The statements that a clause governs. -/
  | body (ts : List Tree)
  /-- The arms of a switch. -/
  | arms (arms : List (Arm Tree))

/-- The ways to write a part. The flag tells whether it ends, through bodies without braces, in an
`if` without `else`; such a part is not written before an `else`. -/
inductive Writes : Part → List Stmt → Bool → Prop
  | simple (s : Simple) : Writes (.tree (.simple s)) s.written false
  | block {begins ends : Pos} {body : List Tree} {inner : List Stmt} {hangs : Bool}
    (writes : Writes (.list body) inner hangs) :
    Writes (.tree (.block begins ends body))
      (.item (.scopeBegin begins) :: inner ++ [.item (.scopeEnd ends)]) false
  | ifThen {test : Test} {pos : Pos} {body : List Tree} {inner : List Stmt} {hangs : Bool}
    (writes : Writes (.body body) inner hangs) :
    Writes (.tree (.ifThen test pos body)) (.item (.clause ⟨.ifTest test, pos⟩) :: inner) true
  | ifElse {test : Test} {pos elsePos : Pos} {body otherwise : List Tree}
    {inner rest : List Stmt} {hangs : Bool} (writes : Writes (.body body) inner false)
    (writesElse : Writes (.body otherwise) rest hangs) :
    Writes (.tree (.ifElse test pos body elsePos otherwise))
      (.item (.clause ⟨.ifTest test, pos⟩) :: inner ++
        .item (.clause ⟨.otherwise, elsePos⟩) :: rest) hangs
  | whileLoop {test : Test} {pos : Pos} {body : List Tree} {inner : List Stmt} {hangs : Bool}
    (writes : Writes (.body body) inner hangs) :
    Writes (.tree (.whileLoop test pos body)) (.item (.clause ⟨.whileTest test, pos⟩) :: inner)
      hangs
  | doWhile {test : Test} {pos testPos : Pos} {body : List Tree} {inner : List Stmt}
    {hangs : Bool} (writes : Writes (.body body) inner hangs) :
    Writes (.tree (.doWhile pos body test testPos))
      (.item (.clause ⟨.doBlock, pos⟩) :: inner ++ [.item (.clause ⟨.whileTest test, testPos⟩)])
      false
  | forever {pos : Pos} {body : List Tree} {inner : List Stmt} {hangs : Bool}
    (writes : Writes (.body body) inner hangs) :
    Writes (.tree (.forever pos body)) (.item (.clause ⟨.forever, pos⟩) :: inner) hangs
  | switch {register : Register} {pos begins ends : Pos} {arms : List (Arm Tree)}
    {inner : List Stmt} {hangs : Bool} (writes : Writes (.arms arms) inner hangs)
    (single : (arms.filter Arm.isDefault).length ≤ 1) :
    Writes (.tree (.switch register pos arms))
      (.item (.clause ⟨.switchOn register, pos⟩) :: .item (.scopeBegin begins) :: inner ++
        [.item (.scopeEnd ends)]) false
  | nil : Writes (.list []) [] false
  | cons {t : Tree} {ts : List Tree} {first rest : List Stmt} {hangs hangs' : Bool}
    (writes : Writes (.tree t) first hangs) (writesRest : Writes (.list ts) rest hangs') :
    Writes (.list (t :: ts)) (first ++ rest) (bif rest.isEmpty then hangs else hangs')
  | braced {begins ends : Pos} {body : List Tree} {inner : List Stmt} {hangs : Bool}
    (writes : Writes (.list body) inner hangs) :
    Writes (.body body) (.item (.scopeBegin begins) :: inner ++ [.item (.scopeEnd ends)]) false
  | alone {t : Tree} {inner : List Stmt} {hangs : Bool} (alone : t.standsAlone)
    (writes : Writes (.tree t) inner hangs) : Writes (.body [t]) inner hangs
  | noArm : Writes (.arms []) [] false
  | arm {arm : Arm Tree} {arms : List (Arm Tree)} {inner rest : List Stmt} {hangs hangs' : Bool}
    (writes : Writes (.body arm.body) inner hangs) (writesRest : Writes (.arms arms) rest hangs') :
    Writes (.arms (arm :: arms)) (.item (.clause arm.clause) :: inner ++ rest)
      (bif rest.isEmpty then hangs else hangs')

/-! ### What it is nested to -/

/-- The table behind a scope: what was declared in it stays. -/
def ScopeTable.leave (table : ScopeTable) (outside : Namespace) : ScopeTable :=
  { table with current := outside }

/-- A simple statement in the open scope, and the table behind it. The flag tells whether the function
around it is an interrupt handler. -/
def Simple.nested (interrupt : Bool) (table : ScopeTable) : Simple → List Stmt × ScopeTable
  | .instruction line => ([.item (.instruction { line with ns := table.current })], table)
  | .call c => ([.item (.call { c with ns := table.current })], table)
  | .label l => ([.item (.label l)], table.define (.label l) .global)
  | .var v init =>
    let var := { v with ns := table.current, init := init.or v.init }
    ([.item (.var var)], table.define (.var var) var.ns)
  | .ret r => ([.item (.ret { r with interrupt })], table)

namespace Tree

mutual

/-- What a tree is nested to in the open scope, and the table behind it. -/
def nested (interrupt : Bool) (table : ScopeTable) : Tree → List Stmt × ScopeTable
  | .simple s => s.nested interrupt table
  | .block begins ends body =>
    let (stmts, inner) := nestedAll interrupt (table.push none) body
    (.item (.scopeBegin begins) :: stmts ++ [.item (.scopeEnd ends)], inner.leave table.current)
  | .ifThen test pos body =>
    let (stmts, inner) := nestedAll interrupt (table.push none) body
    ([.conditional
      { form := .ifThen, first := ⟨⟨.ifTest test, pos⟩, stmts, false⟩, ns := table.current }],
      inner.leave table.current)
  | .ifElse test pos body elsePos otherwise =>
    let (stmts, inner) := nestedAll interrupt (table.push none) body
    let (others, last) :=
      nestedAll interrupt ((inner.leave table.current).push none) otherwise
    ([.conditional
      { form := .ifElse, first := ⟨⟨.ifTest test, pos⟩, stmts, false⟩
        others := [⟨⟨.otherwise, elsePos⟩, others, false⟩], ns := table.current }],
      last.leave table.current)
  | .whileLoop test pos body =>
    let (stmts, inner) := nestedAll interrupt (table.push none) body
    ([.conditional
      { form := .whileLoop, first := ⟨⟨.whileTest test, pos⟩, stmts, false⟩, ns := table.current }],
      inner.leave table.current)
  | .doWhile pos body test _ =>
    let (stmts, inner) := nestedAll interrupt (table.push none) body
    ([.conditional
      { form := .doWhile, first := ⟨⟨.doBlock, pos⟩, stmts, false⟩, post := some test
        ns := table.current }],
      inner.leave table.current)
  | .forever pos body =>
    let (stmts, inner) := nestedAll interrupt (table.push none) body
    ([.conditional
      { form := .forever, first := ⟨⟨.forever, pos⟩, stmts, false⟩, ns := table.current }],
      inner.leave table.current)
  | .switch register pos arms =>
    let (blocks, inner) := nestedArms interrupt (table.push none) arms
    -- The block of the switch itself is left open once an arm stands behind it.
    ([.conditional
      { form := if arms.any Arm.isDefault then .switchDefault else .switch
        first := ⟨⟨.switchOn register, pos⟩, [], !arms.isEmpty⟩
        others := blocks, ns := table.current }],
      inner.leave table.current)

/-- What trees one after another are nested to in the open scope, and the table behind them. -/
def nestedAll (interrupt : Bool) (table : ScopeTable) : List Tree → List Stmt × ScopeTable
  | [] => ([], table)
  | t :: ts =>
    let (first, middle) := nested interrupt table t
    let (rest, last) := nestedAll interrupt middle ts
    (first ++ rest, last)

/-- What the arms of a switch are nested to in its scope, and the table behind them. -/
def nestedArms (interrupt : Bool) (table : ScopeTable) :
    List (Arm Tree) → List (Block Stmt) × ScopeTable
  | [] => ([], table)
  | ⟨value, pos, body⟩ :: arms =>
    let (stmts, inner) := nestedAll interrupt (table.push none) body
    let (blocks, last) := nestedArms interrupt (inner.leave table.current) arms
    (⟨(⟨value, pos, body⟩ : Arm Tree).clause, stmts, false⟩ :: blocks, last)

end

mutual

/-- The simple statements in a tree. -/
def simples : Tree → List Simple
  | .simple s => [s]
  | .block _ _ body | .ifThen _ _ body | .whileLoop _ _ body | .doWhile _ body _ _
  | .forever _ body => simplesAll body
  | .ifElse _ _ body _ otherwise => simplesAll body ++ simplesAll otherwise
  | .switch _ _ arms => simplesArms arms

/-- The simple statements in trees. -/
def simplesAll : List Tree → List Simple
  | [] => []
  | t :: ts => simples t ++ simplesAll ts

/-- The simple statements in arms. -/
def simplesArms : List (Arm Tree) → List Simple
  | [] => []
  | ⟨_, _, body⟩ :: arms => simplesAll body ++ simplesArms arms

end

end Tree

/-- The simple statements in a part. -/
def Part.simples : Part → List Simple
  | .tree t => t.simples
  | .list ts | .body ts => Tree.simplesAll ts
  | .arms all => Tree.simplesArms all

/-- Whether a simple statement may stand in a function: a label must not share the name of a
subroutine's entry, and only a function that is not inline returns. -/
def Simple.Allowed (decl : FunctionDecl) (table : ScopeTable) : Simple → Prop
  | .label l => ∀ existing, Entries.get? (.global, l.name) table.symbols = some existing →
    Nesting.clashes existing (.label l) = false
  | .ret _ => decl.isInline = false
  | _ => True

/-! ### The scope table behind a tree -/

namespace ScopeTable

/-- A table after simple statements of an inner scope: the scope is the same, and of the global symbols
only labels among the statements are new. -/
structure Within (table : ScopeTable) (simples : List Simple) (later : ScopeTable) : Prop where
  /-- The same scope is open. -/
  current : later.current = table.current
  /-- A global symbol is as it was, or such a label. -/
  global : ∀ name, Entries.get? (.global, name) later.symbols =
      Entries.get? (.global, name) table.symbols ∨
    ∃ label, .label label ∈ simples ∧ label.name = name ∧
      Entries.get? (.global, name) later.symbols = some (.label label)

variable {table middle later : ScopeTable} {simples others : List Simple}

/-- Nothing happens. -/
theorem Within.refl (table : ScopeTable) (simples : List Simple) : table.Within simples table :=
  ⟨rfl, fun _ => .inl rfl⟩

/-- One after another. -/
theorem Within.trans (early : table.Within simples middle) (late : middle.Within others later) :
    table.Within (simples ++ others) later := by
  -- A name changes late, early, or not at all.
  refine ⟨late.current.trans early.current, fun name => ?_⟩
  rcases late.global name with same | ⟨label, mem, named, here⟩
  · -- What the later statements leave alone is as the earlier ones left it.
    rw [same]
    rcases early.global name with same | ⟨label, mem, named, here⟩
    · exact .inl same
    · exact .inr ⟨label, List.mem_append_left others mem, named, here⟩
  · exact .inr ⟨label, List.mem_append_right simples mem, named, here⟩

/-- What happens in a scope of its own. -/
theorem Within.leave (inner : (table.push none).Within simples later) :
    table.Within simples (later.leave table.current) :=
  ⟨rfl, inner.global⟩

/-- A scope that is opened is not the global one. -/
theorem push_ne_global (table : ScopeTable) (name : Option String) :
    (table.push name).current ≠ .global := by
  -- Its path has a part more, and the global one is empty.
  cases name <;> simp [push, Namespace.child, Namespace.global]

/-- Any statement that is allowed is still allowed then. -/
theorem Within.allowed (within : table.Within simples later) {decl : FunctionDecl} {s : Simple}
    (allowed : s.Allowed decl table) : s.Allowed decl later := by
  -- Only labels ask for a free name.
  cases s with
  | label l =>
    intro existing found
    rcases within.global l.name with same | ⟨label, -, -, here⟩
    · exact allowed existing (same ▸ found)
    · -- Two labels of one name share it.
      rw [here] at found
      cases found
      rfl
  | _ => exact allowed

end ScopeTable

/-- A simple statement declares in the open scope, or a label. -/
theorem Simple.nested_within (interrupt : Bool) {table : ScopeTable}
    (inner : table.current ≠ .global) (s : Simple) :
    table.Within [s] (s.nested interrupt table).2 := by
  -- By cases on the statement, of which labels and variables are declared.
  cases s with
  | instruction | call | ret => exact .refl table _
  | label l =>
    -- The label takes its own name and no other.
    refine ⟨rfl, fun name => ?_⟩
    simp only [nested, ScopeTable.define, Entries.get?_insert]
    split
    · rename_i same
      exact .inr ⟨l, List.mem_singleton_self _, (Prod.mk.inj same).2, rfl⟩
    · exact .inl rfl
  | var v init =>
    -- A variable is entered under the open scope, and so not as a global symbol.
    refine ⟨rfl, fun name => ?_⟩
    simp only [nested, ScopeTable.define, Entries.get?_insert]
    split
    · rename_i same
      exact absurd (Prod.mk.inj same).1 inner
    · exact .inl rfl

namespace Tree

mutual

/-- A tree leaves the scope open in which it stands. -/
theorem nested_within (interrupt : Bool) {table : ScopeTable} (inner : table.current ≠ .global) :
    (t : Tree) → table.Within t.simples (nested interrupt table t).2
  | .simple s => s.nested_within interrupt inner
  | .block _ _ body => (nestedAll_within interrupt (table.push_ne_global none) body).leave
  | .ifThen _ _ body => (nestedAll_within interrupt (table.push_ne_global none) body).leave
  | .whileLoop _ _ body => (nestedAll_within interrupt (table.push_ne_global none) body).leave
  | .doWhile _ body _ _ => (nestedAll_within interrupt (table.push_ne_global none) body).leave
  | .forever _ body => (nestedAll_within interrupt (table.push_ne_global none) body).leave
  | .ifElse _ _ body _ otherwise =>
    have first := (nestedAll_within interrupt (table.push_ne_global none) body).leave
    first.trans (nestedAll_within interrupt (ScopeTable.push_ne_global _ none) otherwise).leave
  | .switch _ _ arms => (nestedArms_within interrupt (table.push_ne_global none) arms).leave

/-- Trees leave the scope open in which they stand. -/
theorem nestedAll_within (interrupt : Bool) {table : ScopeTable}
    (inner : table.current ≠ .global) :
    (ts : List Tree) → table.Within (simplesAll ts) (nestedAll interrupt table ts).2
  | [] => .refl table _
  | t :: ts => by
    -- The scope is the same for the trees behind the first.
    have first := nested_within interrupt inner t
    rw [nestedAll]
    exact first.trans (nestedAll_within interrupt (first.current ▸ inner) ts)

/-- The arms of a switch leave its scope open. -/
theorem nestedArms_within (interrupt : Bool) {table : ScopeTable}
    (inner : table.current ≠ .global) :
    (arms : List (Arm Tree)) → table.Within (simplesArms arms) (nestedArms interrupt table arms).2
  | [] => .refl table _
  | ⟨value, pos, body⟩ :: arms => by
    have first := (nestedAll_within interrupt (table.push_ne_global none) body).leave
    rw [nestedArms]
    exact first.trans (nestedArms_within interrupt (first.current ▸ inner) arms)

end

end Tree

end CrossAsm
