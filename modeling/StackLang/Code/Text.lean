/-
  The text of a program in code.

  Instructions are written one to a line.  In reading, blank lines and lines that
  start with `//` are skipped, and a fault is reported at the index that the
  instruction would have had.
-/
import StackLang.Code.Line
import StackLang.Text.Lines

namespace StackLang

namespace Code

/-- The text of code as a list of characters: a line feed stands between
    instructions. -/
def chars (code : List Instr) : List Char := ['\n'].intercalate (code.map Instr.chars)

/-- The text of code. -/
def text (code : List Instr) : String := String.ofList (chars code)

/-- The line holds no instruction: it is blank or a comment. -/
def skips (cs : List Char) : Bool := cs.isEmpty || "//".toList.isPrefixOf cs

/-- Reads lines into instructions, the first of which has the given index. -/
def parseLines (index : Nat) : List (List Char) → Except Report (List Instr)
  | [] => .ok []
  | line :: rest =>
    let cs := Text.trim line
    if skips cs then parseLines index rest
    else
      match Instr.parse cs with
      | .ok i => (parseLines (index + 1) rest).map (i :: ·)
      | .error f => .error (.located index (String.ofList cs) f)

/-- Reads the text of code. -/
def parse (s : String) : Except Report (List Instr) := parseLines 0 (Text.lines s.toList)

end Code

end StackLang
