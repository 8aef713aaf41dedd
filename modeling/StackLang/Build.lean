/-
  From a program to its printed lines.

  * `Program.compile` checks a program and generates its code; faults of the
    checker keep the generator from running;
  * `Code.run` links code, runs it with a queue of inputs and splits what it
    printed into lines.
-/
import StackLang.Check
import StackLang.Gen.Stmt
import StackLang.Machine.Run
import StackLang.Text.Lines

namespace StackLang

/-- The code of a program without faults, or all its faults. -/
def Program.compile (p : Program) : Except (List Fault) (List Instr) :=
  match p.check.2 with
  | [] => p.gen.mapError fun f => [f]
  | f :: fs => .error (f :: fs)

/-- What a run of code printed, and how it failed, if it did. -/
structure Printed where
  lines : List String
  report : Option Report
  deriving DecidableEq, Repr

/-- The lines of a text. -/
def printedLines (s : String) : List String := (Text.lines s.toList).map String.ofList

/-- Runs code with a queue of inputs, making at most `fuel` steps. -/
def Code.run (fuel : Nat) (code : List Instr) (inputs : List String) : Printed :=
  match Code.link code with
  | .error r => ⟨[], some r⟩
  | .ok p =>
    let (s, outcome) := p.run fuel { input := .queue inputs, sink := ({} : Sink) }
    ⟨printedLines s.sink.text, outcome.report?⟩

end StackLang
