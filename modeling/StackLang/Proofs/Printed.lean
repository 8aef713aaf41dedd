/-
  The lines that a run prints.

  * `Linked.printed p fuel s`: the texts that the `print` instructions of a run print, in
    the order in which they are executed;
  * `Linked.run_writes`: a run writes these texts as lines, and nothing else, whatever it
    writes to and whether it fails or not.  It follows from what one step writes
    (`Linked.step_writes`);
  * `printedLines_written`: lines are found again in the output, empty ones too;
  * `Code.run_lines`: the lines that are reported are the texts that were printed.
-/
import StackLang.Build
import StackLang.Proofs.Inputs
import StackLang.Proofs.Layout

namespace StackLang

/-- The text that an instruction prints in a state: the values that it pops, from the deepest
    to the topmost.  Nothing is printed if there are too few. -/
def Instr.prints? {W : Type} (s : State W) : Instr → Option String
  | .print n =>
    if n ≤ s.stack.length then some (String.join ((s.stack.take n).reverse.map Value.text))
    else none
  | _ => none

/-- The texts that are printed in a run of at most `fuel` steps, in order. -/
def Linked.printed {W : Type} [Writer W] (p : Linked) : Nat → State W → List String
  | 0, _ => []
  | fuel + 1, s =>
    match p.get? s.ip with
    | none => []
    | some i =>
      (i.prints? s).toList ++
        match p.step s with
        | .next t => printed p fuel t
        | .halted | .failed _ _ => []

/-! ## Output -/

/-- Texts as lines. -/
def written (ls : List String) : String := String.join (ls.map (· ++ "\n"))

theorem written_cons (l : String) (ls : List String) :
    written (l :: ls) = l ++ "\n" ++ written ls := String.join_cons

/-- **Lines are found again in the output.** -/
theorem printedLines_written {ls : List String} (h : ∀ l ∈ ls, IsLine l) :
    printedLines (written ls) = ls := by
  induction ls with
  | nil => rfl
  | cons l ls ih =>
    obtain ⟨⟨hfeed, hreturn⟩, hls⟩ := List.forall_mem_cons.1 h
    have htext : (written (l :: ls)).toList = l.toList ++ '\n' :: (written ls).toList := by
      simp [written_cons]
    have hline : Text.dropReturn l.toList = l.toList := if_neg hreturn
    rw [printedLines, htext, Text.lines_append hfeed, hline, List.map_cons, String.ofList_toList]
    exact congrArg (l :: ·) (ih hls)

theorem Sink.text_of_room {k k' : Sink} (hroom : k.room = none) {ts : List String}
    (h : Writer.Written k ts k') : k'.text = k.text ++ String.join ts := by
  rw [text_eq_writeAll h]
  clear h
  induction ts generalizing k with
  | nil => rw [String.join_nil, String.append_empty]; rfl
  | cons t ts ih =>
    have hwrite : k.write t = (.ok (), { k with text := k.text ++ t }) := by
      simp only [write, hroom]
    have htext := ih (k := (k.write t).2) (by rw [hwrite]; exact hroom)
    rw [hwrite] at htext
    rw [String.join_cons, ← String.append_assoc, ← htext, ← hwrite]
    rfl

/-! ## Steps and runs -/

namespace Linked

open Writer

variable {W : Type} [Writer W] {p : Linked} {s t : State W}

theorem writes_execute (i : Instr) : Exec.Within
    (fun s t : State W => t.sink = writeAll s.sink ((i.prints? s).toList.map (· ++ "\n")))
    (i.execute p) := by
  intro s
  by_cases hi : i.opcode = .print
  · obtain ⟨n, rfl⟩ : ∃ n, i = .print n := by
      cases i <;> simp_all [Instr.opcode]
    by_cases hn : n ≤ s.stack.length
    · have hline : (Instr.print n).prints? s = some (Exec.lineOf n s.stack) := if_pos hn
      simp only [Instr.execute, Exec.print_of_le hn, hline, Option.toList_some, List.map_cons]
      generalize hw : Writer.write s.sink (Exec.lineOf n s.stack ++ "\n") = w
      have hsink : w.2 = writeAll s.sink [Exec.lineOf n s.stack ++ "\n"] := by rw [← hw]; rfl
      rcases w with ⟨_ | _, k⟩ <;> exact hsink
    · simp only [Instr.execute, Exec.print_of_lt (Nat.lt_of_not_le hn), Instr.prints?, if_neg hn]
      rfl
  · have hnone : i.prints? s = none := by
      cases i <;> first | rfl | exact absurd rfl hi
    rw [(i.leavesAlone_execute s).sink hi, hnone]
    rfl

/-- **One step writes the line that it prints.** -/
theorem step_writes {i : Instr} (hi : p.get? s.ip = some i)
    (h : p.step s = .next t ∨ ∃ r, p.step s = .failed t r) :
    t.sink = writeAll s.sink ((i.prints? s).toList.map (· ++ "\n")) := by
  have hsink := step_within hi (writes_execute i) h
  cases i <;> exact hsink

/-- **A run writes the lines that it prints**, also if it fails. -/
theorem run_writes (n : Nat) :
    Written s.sink ((p.printed n s).map (· ++ "\n")) (p.run n s).1.sink := by
  induction n generalizing s with
  | zero => exact .refl _
  | succ n ih =>
    rw [run, printed]
    cases hi : p.get? s.ip with
    | none =>
      rw [step_eq_halted hi]
      exact .inr rfl
    | some i =>
      cases hs : p.step s with
      | halted =>
        simp only [step, hi] at hs
        split at hs <;> cases hs
      | failed t r =>
        dsimp only
        rw [List.append_nil]
        exact .inl (step_writes hi (.inr ⟨r, hs⟩))
      | next t =>
        dsimp only
        rw [List.map_append]
        exact .of_writeAll (step_writes hi (.inl hs) ▸ ih)

theorem printed_add_of_ended {n : Nat} (h : (p.run n s).2 ≠ .unfinished) (m : Nat) :
    p.printed (n + m) s = p.printed n s := by
  induction n generalizing s with
  | zero => exact absurd rfl h
  | succ n ih =>
    rw [Nat.add_right_comm, printed, printed]
    rw [run] at h
    cases hs : p.step s with
    | halted | failed => rfl
    | next t =>
      rw [hs] at h
      simp only [ih h]

end Linked

/-- **One line for each `print`.**  Let code be run whose `print` instructions print no line
    feed, and no carriage return at the end.  The lines that are reported, also if the run
    fails, are the texts that these print, one for each that is executed, in order.  If the
    run has ended, neither depends on the number of steps that it may make. -/
theorem Code.run_lines {code : List Instr} {p : Linked} (hlink : Code.link code = .ok p)
    (inputs : List String) (fuel : Nat) :
    let start : State := { input := .queue inputs, sink := {} }
    ((∀ l ∈ p.printed fuel start, IsLine l) →
      Code.run fuel code inputs = ⟨p.printed fuel start, (p.run fuel start).2.report?⟩) ∧
    ((p.run fuel start).2 ≠ .unfinished → ∀ m, fuel ≤ m →
      Code.run m code inputs = Code.run fuel code inputs ∧
        p.printed m start = p.printed fuel start) := by
  intro start
  refine ⟨fun hlines => ?_, fun hend m hm => ?_⟩
  · have htext : (p.run fuel start).1.sink.text = written (p.printed fuel start) := by
      rw [Sink.text_of_room rfl (Linked.run_writes fuel)]
      exact String.empty_append
    simp only [Code.run, hlink, start] at htext ⊢
    rw [htext, printedLines_written hlines]
  · obtain ⟨d, rfl⟩ := Nat.exists_eq_add_of_le hm
    refine ⟨?_, Linked.printed_add_of_ended hend d⟩
    simp only [Code.run, hlink]
    rw [Linked.run_add_of_ended hend]

/-- Two empty lines around one that holds a carriage return, in a run that fails. -/
theorem Code.run_lines_underflow :
    let code : List Instr := [.print 0, .push .string "\"a\rb\"", .push .int "07", .print 2,
      .print 0, .plain .pop]
    let p : Linked := ⟨code.toArray, []⟩
    let start : State := { input := .queue [], sink := {} }
    Code.link code = .ok p ∧ (∀ l ∈ p.printed 9 start, IsLine l) ∧
      p.printed 9 start = ["", "a\rb7", ""] ∧ (p.run 9 start).2 ≠ .unfinished ∧
      ∀ m, 9 ≤ m → Code.run m code [] =
        ⟨["", "a\rb7", ""], some (.located 5 "pop" .stackUnderflow)⟩ := by
  intro code p start
  have hlink : Code.link code = .ok p := rfl
  have hprinted : p.printed 9 start = ["", "a\rb7", ""] := by decide +kernel
  have hlines : ∀ l ∈ p.printed 9 start, IsLine l := by
    rw [hprinted]
    decide
  have hrun : (p.run 9 start).2 = .failed (.located 5 "pop" .stackUnderflow) := by decide +kernel
  have hend : (p.run 9 start).2 ≠ .unfinished := by rw [hrun]; simp
  obtain ⟨hreport, hmore⟩ := Code.run_lines hlink [] 9
  refine ⟨hlink, hlines, hprinted, hend, fun m hm => ?_⟩
  rw [(hmore hend m hm).1, hreport hlines, hprinted, hrun]
  rfl

end StackLang
