import CrossAsm.Nesting.Weight

/-! Nesting: a flat stream of statements is folded into functions and conditionals. -/

namespace CrossAsm

namespace Nesting

/-- Reads statements to the end; each step leaves less to read. -/
def run (s : Nesting) : EStateM.Result Error Nesting (List Stmt) :=
  match queued : s.queue with
  | [] =>
    match checkClosed s with
    | .ok () s => .ok s.output s
    | .error e s => .error e s
  | stmt :: rest =>
    match passed : step stmt { s with queue := rest } with
    | .ok () s' =>
      have : s'.weight < s.weight := by
        have lighter := step_weight passed
        simp only [weight, queued, List.map_cons, total_cons] at lighter ⊢
        omega
      run s'
    | .error e s' => .error e s'
  termination_by s.weight

end Nesting

/-- Folds statements; the session keeps what was declared, also after a failure. -/
def nest (stmts : List Stmt) : SessionStep (List Stmt) := fun session =>
  match Nesting.run { session, queue := stmts } with
  | .ok nested state => .ok nested state.session
  | .error e state => .error e state.session

end CrossAsm
