/-
  Events: what the passes and the machine did, as a log shows it.

  An event is a value; it is read off the results of a pass, or off the state
  before a step of the machine, and so changes nothing.

  * `Event` lists the kinds of events, with `level`, `message` and `fields` as
    their entry in a log;
  * `Program.compileEvents` are the events of compiling a program;
  * `Linked.stepEvents` and `Linked.runEvents` are those of a machine.
-/
import StackLang.Build

namespace StackLang

/-- How important an event is. -/
inductive Level where
  | warn
  | debug
  | trace
  deriving DecidableEq, Repr

/-- The name of a level. -/
def Level.name : Level → String
  | warn => "WARN"
  | debug => "DEBUG"
  | trace => "TRACE"

/-- What can happen. -/
inductive Event where
  /-- the global scope was to be closed, and stayed open -/
  | popRefused
  | typeFault (f : Fault)
  | checked (faults : Nat)
  | checkFailed (faults : Nat)
  | labelMinted (name : String)
  | generated (instrs labels : Nat)
  | linked (labels : Nat)
  | executing (index : Nat) (i : Instr) (depth : Nat)
  | printing (line : String)
  /-- a line of input was lost, since it is not valid UTF-8 -/
  | inputLost
  deriving DecidableEq, Repr

namespace Event

/-- The importance of an event. -/
def level : Event → Level
  | popRefused | inputLost => .warn
  | labelMinted _ | linked _ => .trace
  | typeFault _ | checked _ | checkFailed _ | generated _ _ | executing _ _ _ | printing _ => .debug

/-- The wording of an event. -/
def message : Event → String
  | popRefused => "attempted to pop the global scope"
  | typeFault _ => "type error"
  | checked _ => "type checking finished"
  | checkFailed _ => "type check failed"
  | labelMinted _ => "allocated label"
  | generated _ _ => "code generation finished"
  | linked _ => "resolved labels"
  | executing _ _ _ => "executing"
  | printing _ => "print"
  | inputLost => "failed to read input"

/-- A number as the text of a field. -/
def number (n : Nat) : String := String.ofList (Number.naturalText n)

/-- The data of an event, as named texts. -/
def fields : Event → List (String × String)
  | popRefused => []
  | typeFault f => [("diagnostic", f.message)]
  | checked n => [("diagnostics", number n)]
  | checkFailed n => [("count", number n)]
  | labelMinted l => [("label", l)]
  | generated n k => [("instructions", number n), ("labels", number k)]
  | linked n => [("count", number n)]
  | executing index i depth =>
    [("ip", number index), ("instruction", i.text), ("depth", number depth)]
  | printing line => [("output", line)]
  | inputLost => [("error", "stream did not contain valid UTF-8")]

end Event

/-! ## Checking and generation -/

/-- The event of closing the current scope. -/
def Scopes.popEvents (Γ : Scopes) : List Event := if Γ.pop?.isSome then [] else [.popRefused]

/-- The events of checking a program. -/
def Program.checkEvents (p : Program) : List Event :=
  let faults := p.check.2
  faults.map .typeFault ++ [.checked faults.length]

/-- The events of the labels minted between two states of a generator. -/
def GenState.labelEvents (before after : GenState) : List Event :=
  (List.range' before.labels (after.labels - before.labels)).map fun n => .labelMinted (labelName n)

/-- The events of generating the code of a program. -/
def Program.genEvents (p : Program) : List Event :=
  let e := p.genRun
  GenState.labelEvents {} e.state ++
    match e.result with
    | .ok _ => [.generated e.code.length e.state.labels]
    | .error _ => []

/-- The events of checking a program and generating its code. -/
def Program.compileEvents (p : Program) : List Event :=
  p.checkEvents ++
    match p.check.2 with
    | [] => p.genEvents
    | f :: fs => [.checkFailed (f :: fs).length]

/-! ## The machine -/

/-- The events of taking the next input. -/
def Input.events (i : Input) : List Event := if i.isUndecodable then [.inputLost] else []

/-- The events of taking a number of inputs in a row. -/
def Input.takeEvents : Nat → Input → List Event
  | 0, _ => []
  | n + 1, i => i.events ++ takeEvents n i.next.2

/-- The events of linking code. -/
def Code.linkEvents (code : List Instr) : List Event :=
  match Code.link code with
  | .ok p => [.linked p.labels.length]
  | .error _ => []

namespace Linked

variable {W : Type}

/-- The events of an instruction in a state; those that follow each step are
    made only if asked for. -/
def stepEvents (verbose : Bool) (s : State W) (i : Instr) : List Event :=
  let executing : List Event := if verbose then [.executing s.ip i s.stack.length] else []
  let effect : List Event :=
    match i with
    | .typed .read _ => s.input.events
    | .print n =>
      if verbose && decide (n ≤ s.stack.length) then [.printing (Exec.lineOf n s.stack)] else []
    | _ => []
  executing ++ effect

variable [Writer W]

/-- Adds the events of a run of at most `fuel` steps to a log, which has the latest
    event first. -/
def runLog (p : Linked) (verbose : Bool) : Nat → State W → List Event → List Event
  | 0, _, log => log
  | fuel + 1, s, log =>
    match p.get? s.ip with
    | none => log
    | some i =>
      let log := (stepEvents verbose s i).reverse ++ log
      match p.step s with
      | .next s' => runLog p verbose fuel s' log
      | .halted | .failed _ _ => log

/-- The events of a run of at most `fuel` steps. -/
def runEvents (p : Linked) (verbose : Bool) (fuel : Nat) (s : State W) : List Event :=
  (p.runLog verbose fuel s []).reverse

/-- A run adds its events to a log without looking at it. -/
theorem runLog_eq (p : Linked) (verbose : Bool) (fuel : Nat) (s : State W) (log : List Event) :
    p.runLog verbose fuel s log = (p.runEvents verbose fuel s).reverse ++ log := by
  suffices h : p.runLog verbose fuel s log = p.runLog verbose fuel s [] ++ log by
    rw [runEvents, List.reverse_reverse, h]
  induction fuel generalizing s log with
  | zero => rfl
  | succ fuel ih =>
    unfold runLog
    cases p.get? s.ip with
    | none => rfl
    | some i =>
      dsimp only
      cases p.step s with
      | halted | failed => simp
      | next t =>
        dsimp only
        rw [ih t, ih t (_ ++ [])]
        simp

/-- The events of a run are those of its first instruction and of the run from there. -/
theorem runEvents_succ (p : Linked) (verbose : Bool) (fuel : Nat) (s : State W) :
    p.runEvents verbose (fuel + 1) s =
      match p.get? s.ip with
      | none => []
      | some i => stepEvents verbose s i ++
          match p.step s with
          | .next t => p.runEvents verbose fuel t
          | .halted | .failed _ _ => [] := by
  rw [runEvents, runLog]
  cases p.get? s.ip with
  | none => rfl
  | some i =>
    dsimp only
    cases p.step s with
    | halted | failed => simp
    | next t => simp [runLog_eq]

end Linked

/-- The events of linking and running code with a queue of inputs. -/
def Code.runEvents (fuel : Nat) (verbose : Bool) (code : List Instr) (inputs : List String) :
    List Event :=
  Code.linkEvents code ++
    match Code.link code with
    | .ok p => p.runEvents verbose fuel { input := .queue inputs, sink := ({} : Sink) }
    | .error _ => []

end StackLang
