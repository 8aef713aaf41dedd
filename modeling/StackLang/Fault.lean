/-
  Faults: everything that can be wrong with a program, its code or its run.

  * `Fault` lists the causes, `Fault.name`, `Fault.message` and `Fault.tip` give
    their wording;
  * `Malformation` lists the ways in which an instruction can be malformed;
  * `Report` is a fault with the instruction at which it was found, if any.
-/
import StackLang.Instr
import StackLang.Syntax
import StackLang.Text.Quoted
import StackLang.Value

namespace StackLang

/-- The constructs that have a condition. -/
inductive Construct where
  | ifElse
  | whileLoop
  | forLoop
  | ternary
  deriving DecidableEq, Repr

/-- The name of a construct. -/
def Construct.name : Construct → String
  | ifElse => "if"
  | whileLoop => "while"
  | forLoop => "for"
  | ternary => "ternary"

/-- The operands that instructions ask for. -/
inductive Operand where
  | int
  | numeric
  | bool
  | string
  deriving DecidableEq, Repr

/-- The name of a kind of operand. -/
def Operand.name : Operand → String
  | int => "int"
  | numeric => "numeric"
  | bool => "bool"
  | string => "string"

/-- The ways in which an instruction can be malformed. -/
inductive Malformation where
  /-- the line has no operation, or a line break inside -/
  | unreadable (line : String)
  | surplusOperand (op : Plain)
  | missingConstant
  | unknownTag (text : String)
  | notName (op : Named) (found : String)
  | notCount (found : String)
  /-- a constant does not denote a value of its type -/
  | badConstant (tag : Tag) (text : String) (cause : ConstantFault)
  /-- the operation is not defined for the type -/
  | rejectedTag (op : Typed) (tag : Tag)
  deriving DecidableEq, Repr

/-- The wording of a malformation. -/
def Malformation.message : Malformation → String
  | unreadable line => s!"empty instruction `{line}`"
  | surplusOperand op => s!"`{op.name}` takes no operands"
  | missingConstant => "`push` expects a type tag and a value"
  | unknownTag text => Tag.unknownMessage text
  | notName op found => s!"`{op.name}` expects a name, found `{found}`"
  | notCount found => s!"`print` expects a count, found `{found}`"
  | badConstant tag text cause => s!"bad {tag.text} constant `{text}`: {cause.message}"
  | rejectedTag op tag => s!"{op.name} does not accept type tag {tag.text}"

/-- The causes of failure. -/
inductive Fault where
  -- found by the checker
  | alreadyDeclared (name : String)
  | notDeclared (name : String)
  | notAssignable (name : String) (expected received : Ty)
  | conditionType (construct : Construct) (received : Ty)
  | operandTypes (op : BinOp) (left right : Ty)
  | operandType (op : UnOp) (operand : Ty)
  | branchTypes (thenTy elseTy : Ty)
  -- found by the generator
  | unresolvedType (construct : String)
  -- found in code
  | unknownOpcode (opcode : String)
  | malformed (cause : Malformation)
  | duplicateLabel (label : String)
  | unresolvedLabel (label : String)
  -- found by the machine
  | uninitialized (name : String)
  | stackUnderflow
  | operandMismatch (op : Opcode) (expected : Operand) (found : Tag)
  | badInput (input : String) (expected : Tag)
  | inputExhausted
  | divisionByZero
  /-- the output says itself why it failed -/
  | outputFailed (cause : String)
  deriving DecidableEq, Repr

namespace Fault

/-- The name of the kind of a fault. -/
def name : Fault → String
  | alreadyDeclared _ => "VariableAlreadyDeclared"
  | notDeclared _ => "VariableNotDeclared"
  | notAssignable _ _ _ => "TypeMatchError"
  | conditionType _ _ => "ConditionTypeError"
  | operandTypes _ _ _ => "OperandTypeError"
  | operandType _ _ => "UnaryOperandError"
  | branchTypes _ _ => "IncompatibleBranches"
  | unresolvedType _ => "UnresolvedType"
  | unknownOpcode _ => "UnknownOpcode"
  | malformed _ => "MalformedInstruction"
  | duplicateLabel _ => "DuplicateLabel"
  | unresolvedLabel _ => "UnresolvedLabel"
  | uninitialized _ => "UninitializedVariable"
  | stackUnderflow => "StackUnderflow"
  | operandMismatch _ _ _ => "OperandTypeMismatch"
  | badInput _ _ => "InputParseError"
  | inputExhausted => "InputExhausted"
  | divisionByZero => "DivisionByZero"
  | outputFailed _ => "OutputError"

/-- The wording of a fault. -/
def message : Fault → String
  | alreadyDeclared x => s!"variable {Text.quote x} already declared"
  | notDeclared x => s!"variable {Text.quote x} used before declaration"
  | notAssignable x expected received =>
    s!"cannot assign {received.name} to {expected.name} variable {Text.quote x}"
  | conditionType c received => s!"condition in {c.name} must be bool, found {received.name}"
  | operandTypes op l r =>
    s!"operator '{op.symbol}' used with incompatible operands: {l.name}, {r.name}"
  | operandType op t => s!"operator '{op.symbol}' cannot be applied to {t.name}"
  | branchTypes t e => s!"ternary branches have incompatible types: {t.name}, {e.name}"
  | unresolvedType construct => s!"cannot resolve a runtime type for {construct}"
  | unknownOpcode opcode => s!"unknown opcode {Text.quote opcode}"
  | malformed cause => s!"malformed instruction: {cause.message}"
  | duplicateLabel l => s!"label {Text.quote l} defined more than once"
  | unresolvedLabel l => s!"jump to unknown label {Text.quote l}"
  | uninitialized x => s!"variable {Text.quote x} not initialized"
  | stackUnderflow => "operand stack underflow"
  | operandMismatch op expected found =>
    s!"{op.name} expected {expected.name} operand, found {found.ty.name}"
  | badInput input expected => s!"cannot parse input {Text.quote input} as {expected.ty.name}"
  | inputExhausted => "no more input available"
  | divisionByZero => "division by zero"
  | outputFailed cause => s!"failed to write output: {cause}"

/-- Advice on a fault, where there is any. -/
def tip : Fault → Option String
  | alreadyDeclared x => some s!"Rename `{x}` or declare it in a nested block to shadow it"
  | notDeclared x => some s!"Declare `{x}` before using it"
  | notAssignable _ expected _ =>
    some s!"Only `{expected.name}` values (or `int` into `float`) can be assigned here"
  | conditionType _ _ => some "Use a comparison to produce a `bool`"
  | uninitialized x => some s!"Assign `{x}` (or `read` it) before reading its value"
  | unknownOpcode _ | malformed _ =>
    some "The instruction stream was not produced by this compiler or was edited by hand"
  | _ => none

end Fault

/-- An instruction of a program: its index and its text. -/
structure Position where
  index : Nat
  text : String
  deriving DecidableEq, Repr

/-- A fault with the instruction at which it was found. -/
structure Report where
  fault : Fault
  position : Option Position := none
  deriving DecidableEq, Repr

namespace Report

/-- A report of a fault found at an instruction. -/
def located (index : Nat) (text : String) (fault : Fault) : Report :=
  ⟨fault, some ⟨index, text⟩⟩

/-- The wording of a report. -/
def message (r : Report) : String :=
  match r.position with
  | none => r.fault.message
  | some p => s!"{r.fault.message} at instruction {p.index} (`{p.text}`)"

end Report

end StackLang
