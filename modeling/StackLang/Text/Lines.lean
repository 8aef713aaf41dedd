/-
  The lines of a text.

  A line ends at a line feed, and a carriage return right before it belongs to
  the line end.  What follows the last line feed is a line if it is not empty;
  a carriage return there is kept.
-/

namespace StackLang.Text

/-- Drops one carriage return at the end of a line. -/
def dropReturn (cs : List Char) : List Char :=
  if cs.getLast? = some '\r' then cs.dropLast else cs

/-- Collects the characters of the current line, in reverse, up to its end. -/
def linesFrom (line : List Char) : List Char → List (List Char)
  | [] => if line.isEmpty then [] else [line.reverse]
  | '\n' :: cs => dropReturn line.reverse :: linesFrom [] cs
  | c :: cs => linesFrom (c :: line) cs

/-- The lines of a text, without their line ends. -/
def lines (cs : List Char) : List (List Char) := linesFrom [] cs

@[simp] theorem lines_nil : lines [] = [] := rfl

end StackLang.Text
