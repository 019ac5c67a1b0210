import CrossAsm.Pos
import CrossAsm.Expr
import CrossAsm.Isa.Encoding

/-! Everything that can go wrong in a compilation: causes, their classes and their texts. -/

namespace CrossAsm

/-- The class an error belongs to. -/
inductive ErrorKind where
  | io | grammar | structural | reference | convergence | layout
  deriving DecidableEq

/-- The stages that repeat until they settle. -/
inductive Stage where
  | resolve | layout
  deriving DecidableEq

/-- The stage's name in messages. -/
def Stage.name : Stage → String
  | .resolve => "resolve"
  | .layout => "layout"

/-- The cause of a failed compilation. -/
inductive Error where
  | io (reason : String)
  | unexpectedEnd (pos : Pos)
  | unexpectedToken (pos : Pos) (token : String)
  | unknownDirective (pos : Pos) (directive : String)
  | notAConstant (pos : Pos) (expr : String)
  | outOfRange (pos : Pos) (value : Int64)
  | unsupportedOp (pos : Pos) (word : String) (cpu : Cpu)
  | nestedFunction (pos : Pos) (name : String)
  | functionWithoutBlock (pos : Pos) (name : String)
  | unexpectedParams (pos : Pos) (name : String)
  | unmatchedClose (pos : Pos)
  | elseWithoutIf (pos : Pos)
  | caseOutsideSwitch (pos : Pos) (clause : String)
  | duplicateDefault (pos : Pos)
  | statementInSwitch (pos : Pos)
  | malformedCase (pos : Pos) (clause : String)
  | doWithoutWhile (pos : Pos)
  | missingStatement (pos : Pos) (clause : String)
  | returnOutsideFunction (pos : Pos)
  | returnInInline (pos : Pos) (name : String)
  | strayInitializer (pos : Pos)
  | unclosedBlock (pos : Pos) (count : Nat)
  | unstructured (pos : Pos) (stmt : String)
  | popGlobal
  | unknownFunction (pos : Pos) (name : String)
  | notAFunction (pos : Pos) (name : String)
  | unknownType (pos : Pos) (name : String)
  | notAValue (pos : Pos) (name : String)
  | noSuchMember (pos : Pos) (owner member : String)
  | argumentCount (pos : Pos) (name : String) (expected given : Nat)
  | invalidOperand (pos : Pos) (line : String)
  | eval (pos : Pos) (cause : EvalError)
  | recursiveDefinition (pos : Pos) (name : String)
  | endlessDefinition (pos : Pos)
  | nameClash (pos : Pos) (name : String)
  | noProgress (stage : Stage) (rounds : Nat) (stuck : List String)
  | recursiveMacro (pos : Pos) (name : String)
  | tooManyRounds (stage : Stage) (rounds : Nat)
  | regionOverlap (pos : Pos) (start stop otherStart otherStop bank : Nat)
  | regionAlreadyOpen (pos : Pos) (bank : Nat)
  | noOpenRegion (pos : Pos) (bank : Nat)
  | regionOverflow (pos : Pos) (org maxsize : Nat)
  | bankOverflow (pos : Pos) (bank maxsize : Nat)
  | noRamRegion (pos : Pos) (name : String)
  | ramOverflow (pos : Pos) (name : String) (size : Nat)
  | duplicateLabel (pos : Pos) (name : String) (first second : UInt16)
  | addressOutOfRange (pos : Pos) (address : Nat)
  | encode (pos : Pos) (cause : EncodeError)
  deriving DecidableEq

namespace Error

/-- The class of an error. -/
def kind : Error → ErrorKind
  | io _ => .io
  | unexpectedEnd _ | unexpectedToken .. | unknownDirective .. | notAConstant .. | outOfRange ..
  | unsupportedOp .. => .grammar
  | nestedFunction .. | functionWithoutBlock .. | unexpectedParams .. | unmatchedClose _
  | elseWithoutIf _ | caseOutsideSwitch .. | duplicateDefault _ | statementInSwitch _
  | malformedCase .. | doWithoutWhile _ | missingStatement .. | returnOutsideFunction _
  | returnInInline .. | strayInitializer _ | unclosedBlock .. | unstructured .. | popGlobal =>
    .structural
  | unknownFunction .. | notAFunction .. | unknownType .. | notAValue .. | noSuchMember ..
  | argumentCount .. | invalidOperand .. | eval .. | recursiveDefinition .. | endlessDefinition _
  | nameClash .. => .reference
  | noProgress .. | recursiveMacro .. | tooManyRounds .. => .convergence
  | regionOverlap .. | regionAlreadyOpen .. | noOpenRegion .. | regionOverflow .. | bankOverflow ..
  | noRamRegion .. | ramOverflow .. | duplicateLabel .. | addressOutOfRange .. | encode .. =>
    .layout

/-- A range of addresses as it is shown. -/
def showRange (start stop : Nat) : String :=
  "0x" ++ Text.hex 4 start ++ "-0x" ++ Text.hex 4 stop

/-- What an error says after its position. -/
def detail : Error → String
  | io reason => "IO error: " ++ reason
  | unexpectedEnd _ => "unexpected end of input"
  | unexpectedToken _ token => "unexpected " ++ token
  | unknownDirective _ directive => "unknown directive: " ++ directive
  | notAConstant _ expr => expr ++ " is not a constant"
  | outOfRange _ value => s!"{value.toInt} is out of range"
  | unsupportedOp _ word cpu => s!"{word} is not supported by the {cpu.name}"
  | nestedFunction _ name => s!"function {name} must be declared at file scope"
  | functionWithoutBlock _ name => s!"function {name} must be followed by a block"
  | unexpectedParams _ name => "only inline functions take parameters: " ++ name
  | unmatchedClose _ => "unmatched block close"
  | elseWithoutIf _ => "else without if"
  | caseOutsideSwitch _ clause => clause ++ " outside of a switch"
  | duplicateDefault _ => "switch already has a default"
  | statementInSwitch _ => "statement outside of a case"
  | malformedCase _ clause => clause ++ " must hold exactly one block"
  | doWithoutWhile _ => "do block is not followed by while"
  | missingStatement _ clause => clause ++ " has no statement"
  | returnOutsideFunction _ => "return outside of a function"
  | returnInInline _ name => "return inside inline function " ++ name
  | strayInitializer _ => "initializer without a variable"
  | unclosedBlock _ count => s!"{count} unclosed block(s)"
  | unstructured _ stmt => stmt ++ " left over after structuring"
  | popGlobal => "cannot pop the global namespace"
  | unknownFunction _ name => "unknown function: " ++ name
  | notAFunction _ name => name ++ " is not a function"
  | unknownType _ name => "unknown type: " ++ name
  | notAValue _ name => name ++ " is not a value"
  | noSuchMember _ owner member => s!"{owner} has no member {member}"
  | argumentCount _ name expected given => s!"{name} takes {expected} argument(s), got {given}"
  | invalidOperand _ line => "invalid operand for " ++ line
  | eval _ cause => cause.message
  | recursiveDefinition _ name => name ++ " is defined in terms of itself"
  | endlessDefinition _ => "definitions follow one another without end"
  | nameClash _ name => name ++ " names both a function and a label or variable"
  | noProgress stage rounds stuck =>
    s!"{stage.name} made no progress after {rounds} round(s), stuck on:\n" ++ "\n".intercalate stuck
  | recursiveMacro _ name => s!"inline function {name} expands into itself"
  | tooManyRounds stage rounds => s!"{stage.name} did not converge within {rounds} rounds"
  | regionOverlap _ start stop otherStart otherStop bank =>
    s!"region {showRange start stop} overlaps region {showRange otherStart otherStop}" ++
      s!" in bank {bank}"
  | regionAlreadyOpen _ bank => s!"bank {bank} already has an open region"
  | noOpenRegion _ bank => s!"no open region in bank {bank}"
  | regionOverflow _ org maxsize =>
    s!"region at 0x{Text.hex 4 org} exceeds its size of {maxsize} bytes"
  | bankOverflow _ bank maxsize => s!"bank {bank} exceeds its size of {maxsize} bytes"
  | noRamRegion _ name => "no open ram region to place " ++ name
  | ramOverflow _ name size => s!"ram region is full, cannot place {size} bytes for {name}"
  | duplicateLabel _ name first second =>
    s!"{name} is bound to both 0x{Text.hex 4 first.toNat} and 0x{Text.hex 4 second.toNat}"
  | addressOutOfRange _ address => s!"address 0x{Text.hex 1 address} is outside the address space"
  | encode _ cause => cause.message

/-- Where an error lies in the source, for those that lie at one place. -/
def pos? : Error → Option Pos
  | io _ | popGlobal | noProgress .. | tooManyRounds .. => none
  | unexpectedEnd pos | unexpectedToken pos _ | unknownDirective pos _ | notAConstant pos _
  | outOfRange pos _ | unsupportedOp pos _ _ | nestedFunction pos _ | functionWithoutBlock pos _
  | unexpectedParams pos _ | unmatchedClose pos | elseWithoutIf pos | caseOutsideSwitch pos _
  | duplicateDefault pos | statementInSwitch pos | malformedCase pos _ | doWithoutWhile pos
  | missingStatement pos _ | returnOutsideFunction pos | returnInInline pos _
  | strayInitializer pos | unclosedBlock pos _ | unstructured pos _ | unknownFunction pos _
  | notAFunction pos _ | unknownType pos _ | notAValue pos _ | noSuchMember pos _ _
  | argumentCount pos _ _ _ | invalidOperand pos _ | eval pos _ | recursiveDefinition pos _
  | endlessDefinition pos | nameClash pos _ | recursiveMacro pos _ | regionOverlap pos _ _ _ _ _
  | regionAlreadyOpen pos _ | noOpenRegion pos _ | regionOverflow pos _ _ | bankOverflow pos _ _
  | noRamRegion pos _ | ramOverflow pos _ _ | duplicateLabel pos _ _ _ | addressOutOfRange pos _
  | encode pos _ => some pos

/-- The full text of an error, led by its position when it has one. -/
def message (error : Error) : String :=
  match error.pos? with
  | some pos => pos.render ++ ": " ++ error.detail
  | none => error.detail

end Error

end CrossAsm
