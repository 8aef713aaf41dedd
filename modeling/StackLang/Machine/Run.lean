/-
  Running a program.

  * `Linked.step` carries out the next instruction;
  * `Linked.run` steps until the program ends or fails, at most `fuel` times, and
    completes the output at the end.

  The output is any writer.  A state can be run on after a failure: the next instruction
  is then the one behind the failed one.
-/
import StackLang.Machine.Exec

namespace StackLang

/-- What a step leads to. -/
inductive Step (W : Type) where
  /-- there was no instruction left -/
  | halted
  | next (s : State W)
  | failed (s : State W) (r : Report)

/-- How a run ended. -/
inductive Outcome where
  | done
  | failed (r : Report)
  /-- there were more steps to make -/
  | unfinished
  deriving DecidableEq, Repr

/-- The report of a run that ended, if it failed. -/
def Outcome.report? : Outcome → Option Report
  | failed r => some r
  | done | unfinished => none

namespace Linked

variable {W : Type} [Writer W]

/-- Carries out the next instruction. -/
def step (p : Linked) (s : State W) : Step W :=
  match p.get? s.ip with
  | none => .halted
  | some i =>
    match (i.execute p).run { s with ip := s.ip + 1 } with
    | .ok _ s' => .next s'
    | .error f s' => .failed s' (.located s.ip i.text f)

/-- Completes the output at the end of a program. -/
def finish (p : Linked) (s : State W) : State W × Outcome :=
  let (result, sink) := Writer.flush s.sink
  let outcome : Outcome := match result with
    | .ok _ => .done
    | .error cause => .failed (.located p.code.size "<end>" (.outputFailed cause))
  ({ s with sink := sink }, outcome)

/-- Makes at most `fuel` steps, and completes the output if the program ends. -/
def run (p : Linked) : Nat → State W → State W × Outcome
  | 0, s => (s, .unfinished)
  | fuel + 1, s =>
    match p.step s with
    | .halted => p.finish s
    | .next s' => run p fuel s'
    | .failed s' r => (s', .failed r)

end Linked

end StackLang
