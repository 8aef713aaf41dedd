/-
  The text of an instruction.

  A line holds the name of the operation and its operand, divided by blanks.
  The constant of a `push` is all that follows its tag; a string constant is
  escaped, so that it stays on the line.

  * `Instr.chars` and `Instr.text` write an instruction;
  * `Instr.parse` reads a line; blanks around it do not count.
-/
import StackLang.Fault
import StackLang.Number.Decimal
import StackLang.Text.Escape

namespace StackLang

/-! ## Writing -/

/-- The text of the constant of a `push`. -/
def constantChars (tag : Tag) (text : String) : List Char :=
  match tag with
  | .string => Text.escape text.toList
  | _ => text.toList

/-- The text of the operand of an instruction, with the blank before it. -/
def Instr.operandChars : Instr → List Char
  | .push tag text => ' ' :: tag.letter :: ' ' :: constantChars tag text
  | .print n => ' ' :: Number.naturalText n
  | .plain _ => []
  | .typed _ tag => [' ', tag.letter]
  | .named _ x => ' ' :: x.toList

/-- The text of an instruction as a list of characters. -/
def Instr.chars (i : Instr) : List Char := i.opcode.name.toList ++ i.operandChars

/-- The text of an instruction. -/
def Instr.text (i : Instr) : String := String.ofList i.chars

/-! ## Reading -/

/-- Reads a tag. -/
def parseTag (cs : List Char) : Except Fault Tag :=
  match Tag.ofText? (String.ofList cs) with
  | some tag => .ok tag
  | none => .error (.malformed (.unknownTag (String.ofList cs)))

/-- Reads the constant of a `push`. -/
def parseConstant (tag : Tag) (cs : List Char) : String :=
  match tag with
  | .string => String.ofList (Text.unescape cs)
  | _ => String.ofList cs

/-- Reads a count below `2 ^ 64`, with an optional plus sign. -/
def parseCount? (cs : List Char) : Option Nat :=
  let ds := match cs with
    | '+' :: ds => ds
    | ds => ds
  if !ds.isEmpty && ds.all Char.isDigit && decide (Number.digitsValue ds < Nat.pow 2 64) then
    some (Number.digitsValue ds)
  else none

/-- Reads the operand of an operation. -/
def Opcode.parse (cs : List Char) : Opcode → Except Fault Instr
  | .push =>
    let (word, rest) := Text.splitWord cs
    if rest.isEmpty then .error (.malformed .missingConstant)
    else (parseTag word).map fun tag => .push tag (parseConstant tag (Text.trimStart rest))
  | .print =>
    match parseCount? cs with
    | some n => .ok (.print n)
    | none => .error (.malformed (.notCount (String.ofList cs)))
  | .plain op => if cs.isEmpty then .ok (.plain op) else .error (.malformed (.surplusOperand op))
  | .typed op => (parseTag cs).map (.typed op)
  | .named op =>
    if !cs.isEmpty && cs.all (!Text.isBlank ·) then .ok (.named op (String.ofList cs))
    else .error (.malformed (.notName op (String.ofList cs)))

/-- Reads an instruction.  A line break may divide the operation from its operand,
    but not stand inside the operand. -/
def Instr.parse (line : List Char) : Except Fault Instr :=
  let cs := Text.trim line
  let (word, rest) := Text.splitWord cs
  let operand := Text.trimStart rest
  if cs.isEmpty || operand.contains '\n' then .error (.malformed (.unreadable (String.ofList line)))
  else
    match Opcode.ofName? (String.ofList word) with
    | some op => op.parse operand
    | none => .error (.unknownOpcode (String.ofList word))

end StackLang
