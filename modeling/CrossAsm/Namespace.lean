import CrossAsm.Text.Path

/-! Namespaces: paths of scope names below the global one. -/

namespace CrossAsm

/-- A path of scope names, outermost first; the empty path is the global namespace. -/
structure Namespace where
  /-- The scope names from the outermost inward. -/
  path : List String := []
  deriving DecidableEq, Inhabited

namespace Namespace

/-- The namespace outside every scope. -/
def global : Namespace := ⟨[]⟩

/-- How the global namespace is shown. -/
def globalName : String := "__global__"

/-- Whether a namespace is the global one. -/
def isGlobal (ns : Namespace) : Bool :=
  ns.path.isEmpty

/-- The scope of the given name inside a namespace. -/
def child (ns : Namespace) (name : String) : Namespace :=
  ⟨ns.path ++ [name]⟩

/-- The namespace around a scope. -/
def parent? (ns : Namespace) : Option Namespace :=
  match ns.path with
  | [] => none
  | path => some ⟨path.dropLast⟩

/-- A namespace followed by each one around it, ending with the global one. -/
def ancestors (ns : Namespace) : List Namespace :=
  (List.range (ns.path.length + 1)).reverse.map fun depth => ⟨ns.path.take depth⟩

/-- The path as it is shown. -/
def render (ns : Namespace) : String :=
  if ns.isGlobal then globalName else ".".intercalate ns.path

/-- The full name of something declared in a namespace. -/
def qualify (ns : Namespace) (name : String) : String :=
  if ns.isGlobal then name else ns.render ++ "." ++ name

/-- Reads a path as it is shown. -/
def parse (text : String) : Namespace :=
  if text = "" ∨ text = globalName then global
  else ⟨(Text.splitDots text.toList).map String.ofList⟩

end Namespace

end CrossAsm
