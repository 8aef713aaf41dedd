/-
  The inputs of a machine.

  * A queue holds the inputs themselves;
  * a reader holds bytes.  An input is the next line of it in UTF-8, without the
    line feeds and carriage returns at its end.  A line that is not valid UTF-8
    is lost, and counts as no input.
-/

namespace StackLang

/-- Where a machine takes its inputs from. -/
inductive Input where
  | queue (values : List String)
  | reader (bytes : List UInt8)
  deriving DecidableEq

/-- Splits bytes behind the first line feed. -/
def splitLine : List UInt8 → List UInt8 × List UInt8
  | [] => ([], [])
  | b :: bs =>
    if b = 10 then ([b], bs)
    else
      let (line, rest) := splitLine bs
      (b :: line, rest)

/-- The text with the given UTF-8 bytes. -/
def decodeText? (bytes : List UInt8) : Option String := String.fromUTF8? ⟨bytes.toArray⟩

/-- The text without the line feeds and carriage returns at its end. -/
def dropLineEnd (s : String) : String :=
  String.ofList (s.toList.reverse.dropWhile (fun c => c = '\n' || c = '\r')).reverse

namespace Input

/-- The next input, if there is one, and what is left. -/
def next : Input → Option String × Input
  | queue [] => (none, queue [])
  | queue (s :: rest) => (some s, queue rest)
  | reader [] => (none, reader [])
  | reader (b :: bs) =>
    let (line, rest) := splitLine (b :: bs)
    ((decodeText? line).map dropLineEnd, reader rest)

/-- The next input is a line that is not valid UTF-8. -/
def isUndecodable : Input → Bool
  | queue _ | reader [] => false
  | reader (b :: bs) => (decodeText? (splitLine (b :: bs)).1).isNone

/-- Takes a number of inputs in a row. -/
def takeNext : Nat → Input → List (Option String)
  | 0, _ => []
  | n + 1, i => i.next.1 :: takeNext n i.next.2

end Input

end StackLang
