/-
  The output of a machine.

  * A `Writer` takes texts.  Writing a text and completing the output may fail, and may
    change the writer also then;
  * a `Sink` is a writer that collects text.  It may have room for a limited number of
    UTF-8 bytes: a text that does not fit is cut, and a character that is cut in two is
    replaced by U+FFFD.  A sink may also refuse to complete its output.
-/

namespace StackLang

/-- What a machine can write to.  A failure is told in words. -/
class Writer (W : Type) where
  /-- Writes a text. -/
  write : W → String → Except String Unit × W
  /-- Completes the output. -/
  flush : W → Except String Unit × W

/-- A writer that collects text. -/
structure Sink where
  /-- what was written -/
  text : String := ""
  /-- the number of bytes that still fit, if there is a limit -/
  room : Option Nat := none
  /-- completing the output fails -/
  flushFails : Bool := false
  deriving DecidableEq, Repr

/-- The part of a text that fits into a number of bytes. -/
def fitting (room : Nat) : List Char → List Char
  | [] => []
  | c :: cs =>
    if c.utf8Size ≤ room then c :: fitting (room - c.utf8Size) cs
    else if room = 0 then []
    else ['\ufffd']

namespace Sink

/-- Writes a text, as far as it fits. -/
def write (k : Sink) (s : String) : Except String Unit × Sink :=
  match k.room with
  | none => (.ok (), { k with text := k.text ++ s })
  | some n =>
    if s.utf8ByteSize ≤ n then
      (.ok (), { k with text := k.text ++ s, room := some (n - s.utf8ByteSize) })
    else
      let part := String.ofList (fitting n s.toList)
      (.error "sink full", { k with text := k.text ++ part, room := some 0 })

/-- Completes the output. -/
def flush (k : Sink) : Except String Unit × Sink :=
  (if k.flushFails then .error "flush failed" else .ok (), k)

/-- The sink without what was written so far. -/
def drain (k : Sink) : Sink := { k with text := "" }

end Sink

instance : Writer Sink := ⟨Sink.write, Sink.flush⟩

end StackLang
