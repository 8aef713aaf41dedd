/-
  Linking: the labels of a program become indices.

  A program links if no label is defined twice and every jump has a target.  A
  label that is defined again is reported before a jump without a target, and of
  each kind the first one is reported.
-/
import StackLang.Code.Line

namespace StackLang

/-- A program whose jumps have targets. -/
structure Linked where
  code : Array Instr
  /-- the index of each label -/
  labels : List (String × Nat)
  deriving DecidableEq, Repr

namespace Linked

/-- The index of a label. -/
def target? (p : Linked) (l : String) : Option Nat := p.labels.lookup l

/-- The instruction at an index. -/
def get? (p : Linked) (i : Nat) : Option Instr := p.code[i]?

end Linked

namespace Code

/-- Adds the labels that code defines to a table, the code starting at an
    index. -/
def defineLabels (table : List (String × Nat)) (index : Nat) :
    List Instr → Except Report (List (String × Nat))
  | [] => .ok table
  | i :: rest =>
    match i.label? with
    | none => defineLabels table (index + 1) rest
    | some l =>
      if (table.lookup l).isSome then .error (.located index i.text (.duplicateLabel l))
      else defineLabels ((l, index) :: table) (index + 1) rest

/-- Tests that every jump has a target in the table, the code starting at an
    index. -/
def checkTargets (table : List (String × Nat)) (index : Nat) : List Instr → Except Report Unit
  | [] => .ok ()
  | i :: rest =>
    match i.target? with
    | none => checkTargets table (index + 1) rest
    | some l =>
      if (table.lookup l).isSome then checkTargets table (index + 1) rest
      else .error (.located index i.text (.unresolvedLabel l))

/-- Links a program. -/
def link (code : List Instr) : Except Report Linked := do
  let labels ← defineLabels [] 0 code
  checkTargets labels 0 code
  return ⟨code.toArray, labels⟩

end Code

end StackLang
