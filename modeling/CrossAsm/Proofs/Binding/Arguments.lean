import CrossAsm.Proofs.Binding.Enough
import CrossAsm.Proofs.Binding.Settled

/-! Arguments: an expression in which arguments stand for names is bound as it would be if each of
those names stood for its argument, whatever the scope around it declares. -/

namespace CrossAsm

namespace View

/-- Binds an expression in which some names stand for arguments, and all others for what they stand
for in the scope. -/
def bindUnder (view : View) (args : List (String × Expr)) : Expr → Except Error (Option Expr)
  | .number value => .ok (some (.number value))
  | .ref key => .ok (some (.ref key))
  | .name path =>
    match Entries.get? path args with
    | some value => .ok (some value)
    | none => view.bind (.name path)
  | .sizeof type => view.bind (.sizeof type)
  | .unary op e => do
    view.fold ((← bindUnder view args e).map (.unary op))
  | .binary op l r => do
    let l ← bindUnder view args l
    let r ← bindUnder view args r
    match l, r with
    | some l, some r => view.fold (some (.binary op l r))
    | _, _ => return none

/-- Settled arguments are bound to themselves, so it makes no difference whether they are put in place
of the names first. -/
theorem bindWith_substitute {view : View} {args : List (String × Expr)} {e : Expr} {n : Nat}
    (settled : ∀ {param value}, Entries.get? param args = some value → value.Settled)
    (more : view.fuel e.weight ≤ n) :
    view.bindWith (name n view) (sizeof n view) (e.substitute args) = view.bindUnder args e := by
  -- By induction on the expression; what is left of it is bound as before.
  induction e with
  | number | ref => rfl
  | sizeof type => exact bind_enough more
  | name path =>
    rw [Expr.substitute, bindUnder]
    cases found : Entries.get? path args with
    | none => exact bind_enough more
    | some value => exact bindWith_of_settled (settled found)
  | unary op e ih =>
    have inner : view.fuel e.weight ≤ n :=
      Nat.le_trans (view.fuel_mono (Nat.le_succ _)) more
    rw [Expr.substitute, bindWith, bindUnder, ih inner]
  | binary op l r left right =>
    have first : view.fuel l.weight ≤ n :=
      Nat.le_trans (view.fuel_mono (by rw [Expr.weight]; omega)) more
    have second : view.fuel r.weight ≤ n :=
      Nat.le_trans (view.fuel_mono (by rw [Expr.weight]; omega)) more
    rw [Expr.substitute, bindWith, left first, right second]
    rfl

end View

/-- Putting arguments in place of names captures nothing. Arguments that were bound anywhere in a table
are bound to themselves from every namespace of it; and binding an expression with arguments in
place of names has the outcome of binding it with those names standing for the arguments and all
others for what they stand for there. -/
theorem bind_substitute (view : View) (args : List (String × Expr))
    (bound : ∀ param value, Entries.get? param args = some value →
      ∃ (other : View) (written : Expr), other.scopes = view.scopes ∧
        other.bind written = .ok (some value))
    (e : Expr) :
    view.bind (e.substitute args) = view.bindUnder args e ∧
      ∀ param value, Entries.get? param args = some value →
        view.bind value = .ok (some value) := by
  -- Arguments were bound before, so that they are settled and binding leaves them alone.
  have settled : ∀ {param value}, Entries.get? param args = some value → value.Settled := by
    intro param value found
    obtain ⟨other, written, -, known⟩ := bound param value found
    exact View.bind_settled known
  refine ⟨?_, fun param value found => View.bind_of_settled (settled found)⟩
  -- As many definitions may be followed as either side needs.
  have first : view.fuel (e.substitute args).weight ≤
      view.fuel ((e.substitute args).weight + e.weight) := view.fuel_mono (Nat.le_add_right _ _)
  have second : view.fuel e.weight ≤ view.fuel ((e.substitute args).weight + e.weight) :=
    view.fuel_mono (Nat.le_add_left _ _)
  rw [← View.bind_enough first, View.bindWith_substitute settled second]

/-- Two functions with a variable of one name each, at different addresses. -/
def twoCounters : ScopeTable where
  symbols :=
    let counter (ns : Namespace) (address : Option Expr) : (Namespace × String) × Symbol :=
      ((ns, "counter"), .var ⟨"byte", "counter", false, .scalar, address, none, ns, none, default⟩)
    [counter ⟨["caller"]⟩ none, counter ⟨["body"]⟩ (some (.number 0x20))]

/-- In the second function the argument is the variable of the first one, beside its own. -/
theorem twoCounters_bound :
    let body : View := ⟨twoCounters, ⟨["body"]⟩, default, []⟩
    let caller : View := ⟨twoCounters, ⟨["caller"]⟩, default, []⟩
    let args : List (String × Expr) := [("value", .ref "caller.counter")]
    let e : Expr := .binary .add (.name "value") (.name "counter")
    caller.bind (.name "counter") = .ok (some (.ref "caller.counter")) ∧
      body.bind (e.substitute args) = body.bindUnder args e ∧
      body.bindUnder args e =
        .ok (some (.binary .add (.ref "caller.counter") (.number 0x20))) := by
  -- The only argument is bound in the first function, which is all the theorem asks for.
  intro body caller args e
  have bound : caller.bind (.name "counter") = .ok (some (.ref "caller.counter")) := by
    decide +kernel
  refine ⟨bound, (bind_substitute body args ?_ e).1, by decide +kernel⟩
  intro param value found
  obtain ⟨rfl, rfl⟩ := Prod.mk.inj (List.mem_singleton.1 (Entries.mem_of_get? found))
  exact ⟨caller, _, rfl, bound⟩

end CrossAsm
