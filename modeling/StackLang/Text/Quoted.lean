/-
  Quoted text, as messages show names and inputs.

  The text stands between double quotes.  A quote and a backslash get a
  backslash; NUL, tab, line feed and carriage return are written `\0`, `\t`,
  `\n` and `\r`; any other character that has no glyph or joins the one before
  it is written by its code point, `\u{301}`.
-/
import StackLang.Text.Invisible
import StackLang.Text.Extending

namespace StackLang.Text

/-- The code point of a character in lower-case hexadecimal digits. -/
def hexCode (c : Char) : List Char := Nat.toDigits 16 c.toNat

/-- Writes one character of a quoted text. -/
def quoteChar (c : Char) : List Char :=
  match c with
  | '"' => ['\\', '"']
  | '\\' => ['\\', '\\']
  | '\x00' => ['\\', '0']
  | '\t' => ['\\', 't']
  | '\n' => ['\\', 'n']
  | '\r' => ['\\', 'r']
  | c =>
    if isExtending c || isInvisible c then ['\\', 'u', '\x7b'] ++ hexCode c ++ ['\x7d'] else [c]

/-- The text between double quotes. -/
def quote (s : String) : String :=
  String.ofList ('"' :: s.toList.flatMap quoteChar ++ ['"'])

end StackLang.Text
