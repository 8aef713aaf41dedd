/-
  Text on one line: line breaks and backslashes as two-character escapes.

  * `escape` writes `\\` for a backslash, `\n` for a line feed and `\r` for a
    carriage return, so that the result has no line break;
  * `unescape` undoes it; a backslash that starts no known escape stands for
    itself.
-/

namespace StackLang.Text

/-- Writes a character so that it fits on one line. -/
def escapeChar : Char → List Char
  | '\\' => ['\\', '\\']
  | '\n' => ['\\', 'n']
  | '\r' => ['\\', 'r']
  | c => [c]

/-- Writes a text so that it fits on one line. -/
def escape (cs : List Char) : List Char := cs.flatMap escapeChar

/-- Reads an escaped text; a backslash before any other character, or at the
    end, is kept. -/
def unescape : List Char → List Char
  | '\\' :: 'n' :: cs => '\n' :: unescape cs
  | '\\' :: 'r' :: cs => '\r' :: unescape cs
  | '\\' :: '\\' :: cs => '\\' :: unescape cs
  | c :: cs => c :: unescape cs
  | [] => []

@[simp] theorem escape_nil : escape [] = [] := rfl

@[simp] theorem escape_cons (c : Char) (cs : List Char) :
    escape (c :: cs) = escapeChar c ++ escape cs := rfl

@[simp] theorem unescape_nil : unescape [] = [] := by simp [unescape]

/-- A character other than a backslash stands for itself. -/
theorem unescape_cons {c : Char} (h : c ≠ '\\') (cs : List Char) :
    unescape (c :: cs) = c :: unescape cs := by
  rw [unescape] <;> simp_all

/-- The escape of a character is read back as this character. -/
theorem unescape_escapeChar (c : Char) (cs : List Char) :
    unescape (escapeChar c ++ cs) = c :: unescape cs := by
  unfold escapeChar
  split
  · simp [unescape]
  · simp [unescape]
  · simp [unescape]
  · next h _ _ => exact unescape_cons h cs

/-- **Escaping is undone.** -/
theorem unescape_escape (cs : List Char) : unescape (escape cs) = cs := by
  induction cs with
  | nil => simp
  | cons c cs ih => rw [escape_cons, unescape_escapeChar, ih]

end StackLang.Text
