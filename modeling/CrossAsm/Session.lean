import CrossAsm.Scope.Table

/-! The state that the stages of a compilation share. -/

namespace CrossAsm

/-- The state of a compilation. -/
structure Session where
  /-- The target processor. -/
  cpu : Cpu
  /-- The symbols known so far. -/
  scopes : ScopeTable := {}
  /-- The number of labels minted. -/
  labels : Nat := 0

/-- A step of a compilation; one that fails leaves the session as it is then. -/
abbrev SessionStep : Type → Type := EStateM Error Session

namespace Session

/-- Forgets all symbols and labels. -/
def reset (session : Session) : Session :=
  { cpu := session.cpu }

/-- The name of the label that is minted after the given number of others. -/
def labelName (count : Nat) : String :=
  s!"_L{count}"

/-- Mints a label, and defines it globally. -/
def mint (session : Session) (pos : Pos) : String × Session :=
  let name := labelName session.labels
  (name, { session with
    labels := session.labels + 1
    scopes := session.scopes.define (.label ⟨name, pos⟩) .global })

/-- Mints a label, and defines it globally. -/
def newLabel (pos : Pos) : SessionStep String :=
  modifyGet (·.mint pos)

/-- Puts a question to the session, which it does not change. -/
def ask {α : Type} (question : Session → Except Error α) : SessionStep α := do
  match question (← get) with
  | .ok a => return a
  | .error e => throw e

/-- Defines a symbol in a namespace. -/
def define (symbol : Symbol) (ns : Namespace) : SessionStep Unit :=
  modify fun session => { session with scopes := session.scopes.define symbol ns }

end Session

end CrossAsm
