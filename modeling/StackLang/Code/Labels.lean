/-
  Renaming of labels.

  `Code.normalize` names the labels of a program `L0`, `L1`, … in the order of
  their first appearance, as a target or as a definition.
-/
import StackLang.Instr

namespace StackLang

/-- The label in an instruction, as a target or as a definition. -/
def Instr.labelName? : Instr → Option String
  | .named .jmp l | .named .fjmp l | .named .label l => some l
  | _ => none

/-- Renames the label in an instruction. -/
def Instr.mapLabel (f : String → String) : Instr → Instr
  | .named .jmp l => .named .jmp (f l)
  | .named .fjmp l => .named .fjmp (f l)
  | .named .label l => .named .label (f l)
  | i => i

namespace Code

/-- Adds a label behind those that were seen before, if it is new. -/
def addLabel (seen : List String) (l : String) : List String :=
  if l ∈ seen then seen else seen ++ [l]

/-- Names the labels of code by their place in the order of first appearance, behind
    those that were seen before. -/
def normalizeFrom (seen : List String) : List Instr → List Instr
  | [] => []
  | i :: code =>
    let seen := i.labelName?.elim seen (addLabel seen)
    i.mapLabel (fun l => labelName (seen.idxOf l)) :: normalizeFrom seen code

/-- Names the labels of a program by their place in the order of first
    appearance. -/
def normalize (code : List Instr) : List Instr := normalizeFrom [] code

end Code

end StackLang
