/-
  The effect of one instruction, also of one that fails.

  * `Input.Takes i o j`: one input is taken from `i`, if there is one;
  * `Instr.execute_effect`: all that an instruction does to a state, if it is carried
    out (`Instr.CarriedOut`) and if it fails (`Instr.BrokenOff`).
-/
import StackLang.Proofs.Replace

namespace StackLang

/-! ## Operands and targets -/

namespace Instr

theorem removes_le_two {i : Instr} (h : i.opcode ≠ .print) : i.removes ≤ 2 := by
  cases i with
  | push => exact Nat.zero_le 2
  | print => exact absurd rfl h
  | plain op | typed op | named op =>
    cases op <;> simp [removes, taken, Plain.taken, Typed.taken, Named.taken]

theorem removes_eq_zero {i : Instr}
    (h : i.opcode ∈ [.push, .named .load, .typed .read, .plain .dup]) : i.removes = 0 := by
  cases i with
  | push => rfl
  | print => simp [opcode] at h
  | plain op | typed op | named op => cases op <;> first | rfl | simp [opcode] at h

/-- The label that an instruction goes on at, if it does not go on at the next
    instruction. -/
def goesTo? {W : Type} (s : State W) : Instr → Option String
  | named .jmp l => some l
  | named .fjmp l => if s.stack.head? = some (.bool false) then some l else none
  | _ => none

end Instr

/-! ## Inputs -/

theorem splitLine_cases (bs : List UInt8) :
    10 ∉ bs ∧ splitLine bs = (bs, []) ∨
      ∃ line rest, bs = line ++ 10 :: rest ∧ 10 ∉ line ∧ splitLine bs = (line ++ [10], rest) := by
  induction bs with
  | nil => exact .inl ⟨by simp, rfl⟩
  | cons b bs ih =>
    by_cases hb : b = 10
    · subst hb
      exact .inr ⟨[], bs, rfl, by simp, by simp [splitLine]⟩
    · rcases ih with ⟨hbs, hsplit⟩ | ⟨line, rest, rfl, hline, hsplit⟩
      · exact .inl ⟨by simp [hbs, Ne.symm hb], by simp [splitLine, hb, hsplit]⟩
      · refine .inr ⟨b :: line, rest, rfl, by simp [hline, Ne.symm hb], ?_⟩
        simp [splitLine, hb, hsplit]

namespace Input

/-- One input is taken, if there is one: the first value of a queue, or the first line
    of a reader.  A line that is no text is taken too, and counts as no input. -/
inductive Takes : Input → Option String → Input → Prop
  | exhausted : Takes (.queue []) none (.queue [])
  | value {v vs} : Takes (.queue (v :: vs)) (some v) (.queue vs)
  | ended : Takes (.reader []) none (.reader [])
  | line {bs rest} : 10 ∉ bs →
      Takes (.reader (bs ++ 10 :: rest)) ((decodeText? (bs ++ [10])).map dropLineEnd) (.reader rest)
  | last {bs} : bs ≠ [] → 10 ∉ bs →
      Takes (.reader bs) ((decodeText? bs).map dropLineEnd) (.reader [])

theorem takes_next (i : Input) : i.Takes i.next.1 i.next.2 := by
  match i with
  | queue [] => exact .exhausted
  | queue (v :: vs) => exact .value
  | reader [] => exact .ended
  | reader (b :: bs) =>
    simp only [next]
    rcases splitLine_cases (b :: bs) with ⟨hbs, hsplit⟩ | ⟨line, rest, hbs, hline, hsplit⟩
    · rw [hsplit]
      exact .last (List.cons_ne_nil b bs) hbs
    · rw [hsplit, hbs]
      exact .line hline

end Input

/-! ## Actions on the rest of the state -/

namespace Exec

variable {W : Type}

/-- A line that is not printed is missing its values, or they are gone. -/
theorem print_error [Writer W] {n : Nat} {s t : State W} {f : Fault} (h : print n s = .error f t) :
    f = .stackUnderflow ∧ s.stack.length < n ∧ t = s ∨
      ∃ cause, f = .outputFailed cause ∧ n ≤ s.stack.length ∧ t.stack = s.stack.drop n := by
  by_cases hn : s.stack.length < n
  · rw [print_of_lt hn] at h
    cases h
    exact .inl ⟨rfl, hn, rfl⟩
  · have hle := Nat.le_of_not_lt hn
    rw [print_of_le hle] at h
    generalize Writer.write s.sink (lineOf n s.stack ++ "\n") = w at h
    rcases w with ⟨cause | _, k⟩
    · cases h
      exact .inr ⟨cause, rfl, hle, rfl⟩
    · cases h

/-- A read takes one input, also if it is no value of the type. -/
theorem read_takes (tag : Tag) (s : State W) :
    match read tag s with
    | .ok _ t => ∃ text v, s.input.Takes (some text) t.input ∧ Value.read tag text = .ok v ∧
        t.stack = v :: s.stack
    | .error f t => f = .inputExhausted ∧ s.input.Takes none t.input ∨
        ∃ text, f = .badInput text tag ∧ s.input.Takes (some text) t.input := by
  have htakes := s.input.takes_next
  rw [read_eq]
  cases ho : s.input.next.1 with
  | none =>
    rw [ho] at htakes
    exact .inl ⟨rfl, htakes⟩
  | some text =>
    rw [ho] at htakes
    cases hv : Value.read tag text with
    | ok v => simpa only [hv] using ⟨text, v, htakes, hv, rfl⟩
    | error e => simpa only [hv] using .inr ⟨text, rfl, htakes⟩

theorem save_eq (p : Linked) (x : String) (s : State W) :
    named p .save x s =
      match s.stack with
      | [] => .error .stackUnderflow s
      | v :: σ => .ok () { s with stack := σ, store := s.store.set x v } := by
  rcases s with ⟨ip, _ | ⟨v, σ⟩, m, i, k⟩ <;> rfl

theorem jump_eq (p : Linked) (l : String) (s : State W) :
    jump p l s =
      match p.target? l with
      | some j => .ok () { s with ip := j }
      | none => .error (.unresolvedLabel l) s := by
  unfold jump
  cases p.target? l <;> rfl

/-- A value that is no truth value is lost. -/
theorem fjmp_eq (p : Linked) (l : String) (s : State W) :
    named p .fjmp l s =
      match s.stack with
      | [] => .error .stackUnderflow s
      | .bool false :: σ => jump p l { s with stack := σ }
      | .bool true :: σ => .ok () { s with stack := σ }
      | v :: σ => .error (.operandMismatch (.named .fjmp) .bool v.tag) { s with stack := σ } := by
  rcases s with ⟨ip, _ | ⟨_ | _ | (_ | _) | _, σ⟩, m, i, k⟩ <;> rfl

/-- A type that the operation is not defined for is found before anything is done. -/
theorem typed_of_not_accepts {op : Typed} {tag : Tag} (h : ¬ op.Accepts tag) :
    typed op tag = (rejectTag op tag : Exec W Unit) := by
  cases op <;> cases tag <;> first | rfl | simp [Typed.Accepts] at h

end Exec

/-! ## Instructions -/

namespace Instr

variable {W : Type} {p : Linked}

open Exec

/-- Inputs are taken by a read and lines are written by a print only. -/
structure LeavesAlone (i : Instr) (s t : State W) : Prop where
  sink : i.opcode ≠ .print → t.sink = s.sink
  input : i.opcode ≠ .typed .read → t.input = s.input

/-- What an instruction that is carried out does. -/
structure CarriedOut (p : Linked) (i : Instr) (s t : State W) : Prop extends i.LeavesAlone s t where
  accepted : ∀ op tag, i = .typed op tag → op.Accepts tag
  operands : i.taken ≤ s.stack.length
  /-- what is below the operands stays -/
  stack : ∃ out, out.length = i.adds ∧ t.stack = out ++ s.stack.drop i.removes
  store : i.opcode ≠ .named .save → t.store = s.store
  saved : ∀ x, i = .named .save x →
    t.store.get? x = s.stack.head? ∧ ∀ y, y ≠ x → t.store.get? y = s.store.get? y
  next : i.goesTo? s = none → t.ip = s.ip
  jumped : ∀ l, i.goesTo? s = some l → p.target? l = some t.ip
  read : ∀ tag, i = .typed .read tag → ∃ text v, s.input.Takes (some text) t.input ∧
    Value.read tag text = .ok v ∧ t.stack = v :: s.stack

/-- What an instruction has done when it fails. -/
structure BrokenOff (p : Linked) (i : Instr) (f : Fault) (s t : State W) : Prop
    extends i.LeavesAlone s t where
  fault : f = .stackUnderflow ∧ s.stack.length < i.taken ∨ i.Risks p f
  store : t.store = s.store
  ip : t.ip = s.ip
  /-- some operands are gone, two at most -/
  stack : i.opcode ≠ .print → ∃ k, k ≤ 2 ∧ k ≤ i.removes ∧ k ≤ s.stack.length ∧
    t.stack = s.stack.drop k
  kept : i.opcode ∈ [.push, .named .load, .typed .read, .plain .dup] → t.stack = s.stack
  rejected : ∀ op tag, i = .typed op tag → ¬ op.Accepts tag →
    f = .malformed (.rejectedTag op tag) ∧ t = s
  /-- a `print` fails before it does anything, or when its values are gone -/
  print : ∀ n, i = .print n → f = .stackUnderflow ∧ s.stack.length < n ∧ t = s ∨
    ∃ cause, f = .outputFailed cause ∧ n ≤ s.stack.length ∧ t.stack = s.stack.drop n
  read : ∀ tag, i = .typed .read tag → f = .inputExhausted ∧ s.input.Takes none t.input ∨
    ∃ text, f = .badInput text tag ∧ s.input.Takes (some text) t.input

variable {i : Instr} {s : State W}

theorem goesTo?_of_target? (h : i.target? = none) : i.goesTo? s = none := by
  rcases i with _ | _ | _ | _ | ⟨_ | _ | _ | _ | _, x⟩ <;> first | rfl | cases h

theorem target?_eq_some {l : String} :
    i.target? = some l ↔ i = .named .jmp l ∨ i = .named .fjmp l := by
  rcases i with _ | _ | _ | _ | ⟨_ | _ | _ | _ | _, x⟩ <;> simp [target?]

theorem goesTo?_eq_some {l : String} : i.goesTo? s = some l ↔
    i = .named .jmp l ∨ i = .named .fjmp l ∧ s.stack.head? = some (.bool false) := by
  rcases i with _ | _ | _ | _ | ⟨_ | _ | _ | _ | _, x⟩ <;> simp [goesTo?, and_comm]

variable [Writer W]

theorem leavesAlone_execute (i : Instr) (s : State W) :
    i.LeavesAlone s (stateOf (i.execute p s)) := by
  refine ⟨fun h => ?_, fun h => ?_⟩
  · exact i.within_execute (Frame.of_field (·.sink) fun _ _ => rfl)
      (fun _ _ _ => rfl) (fun _ _ _ => rfl) (fun hi => absurd hi h) (fun _ _ _ _ _ => rfl) s
  · exact i.within_execute (Frame.of_field (·.input) fun _ _ => rfl)
      (fun hi => absurd hi h) (fun _ _ _ => rfl) (fun _ _ _ => rfl) (fun _ _ _ _ _ => rfl) s

theorem store_execute (i : Instr) (s : State W) :
    match i.execute p s with
    | .ok _ t => (i.opcode ≠ .named .save → t.store = s.store) ∧ ∀ x, i = .named .save x →
        t.store.get? x = s.stack.head? ∧ ∀ y, y ≠ x → t.store.get? y = s.store.get? y
    | .error _ t => t.store = s.store := by
  by_cases hi : i.opcode = .named .save
  · obtain ⟨x, rfl⟩ : ∃ x, i = .named .save x := by
      cases i <;> simp_all [opcode]
    simp only [execute, save_eq]
    cases s.stack with
    | nil => rfl
    | cons v σ =>
      refine ⟨fun hne => absurd rfl hne, ?_⟩
      rintro _ ⟨⟩
      exact ⟨Store.get?_set_self .., fun y hy => Store.get?_set_of_ne _ _ hy⟩
  · have hstore := i.within_execute (p := p) (Frame.of_field (·.store) fun _ _ => rfl)
      (fun _ _ _ => rfl) (fun hs => absurd hs hi) (fun _ _ _ => rfl) (fun _ _ _ _ _ => rfl) s
    cases hx : i.execute p s with
    | error f t => rw [hx] at hstore; exact hstore
    | ok _ t =>
      rw [hx] at hstore
      refine ⟨fun _ => hstore, ?_⟩
      rintro x rfl
      exact absurd rfl hi

theorem control_execute (i : Instr) (s : State W) :
    match i.execute p s with
    | .ok _ t => (i.goesTo? s = none → t.ip = s.ip) ∧
        ∀ l, i.goesTo? s = some l → p.target? l = some t.ip
    | .error _ t => t.ip = s.ip := by
  -- an instruction without a label never touches the index
  cases hi : i.target? with
  | none =>
    have hip := i.within_execute (p := p) (Frame.of_field (·.ip) fun _ _ => rfl)
      (fun _ _ _ => rfl) (fun _ _ _ => rfl) (fun _ _ _ => rfl) (by simp [hi]) s
    have hgo := goesTo?_of_target? (s := s) hi
    cases hx : i.execute p s with
    | error f t => rw [hx] at hip; exact hip
    | ok _ t => rw [hx] at hip; exact ⟨fun _ => hip, by simp [hgo]⟩
  | some l =>
    rcases target?_eq_some.1 hi with rfl | rfl
    · simp only [execute, Exec.named, jump_eq]
      cases hl : p.target? l <;> simp [goesTo?, hl]
    · simp only [execute, fjmp_eq]
      rcases s with ⟨ip, _ | ⟨v, σ⟩, m, input, k⟩
      · rfl
      · cases v with
        | int | float | string => rfl
        | bool b =>
          cases b with
          | true => simp [goesTo?]
          | false =>
            simp only [jump_eq]
            cases hl : p.target? l <;> simp [goesTo?, hl]

/-- **The effect of one instruction.**  Carried out or not, an instruction writes only if
    it is a `print`, and takes an input only if it is a `read`: then exactly one, also if
    that is no value of the type.  If it is carried out, then all values below its operands
    stay, all variables but the one that a `save` stores keep their values, and the next
    instruction comes next unless a jump is taken.  If it fails, the store and the next
    instruction are as before, and at most the two topmost values are gone: none of them if
    it takes no operands or its type is rejected.  A `print` that fails has taken nothing,
    if there was too little, or all of its values, if they could not be written. -/
theorem execute_effect (p : Linked) (i : Instr) (s : State W) :
    match (i.execute p).run s with
    | .ok _ t => i.CarriedOut p s t
    | .error f t => i.BrokenOff p f s t := by
  have halone := i.leavesAlone_execute (p := p) s
  have hstore := i.store_execute (p := p) s
  have hcontrol := i.control_execute (p := p) s
  have hstack := i.replaces_execute (p := p) s
  simp only [EStateM.run]
  cases hx : i.execute p s with
  | ok _ t =>
    rw [hx] at halone hstore hcontrol hstack
    obtain ⟨hoperands, hout⟩ := hstack
    refine ⟨halone, ?_, hoperands, hout, hstore.1, hstore.2, hcontrol.1, hcontrol.2, ?_⟩
    · rintro op tag rfl
      refine Classical.byContradiction fun hr => ?_
      simp only [execute, typed_of_not_accepts hr] at hx
      cases hx
    · rintro tag rfl
      have hread := read_takes tag s
      rwa [show read tag s = .ok () t from hx] at hread
  | error f t =>
    rw [hx] at halone hstore hcontrol hstack
    obtain ⟨hf, k, hk, hlen, ht⟩ := hstack
    refine ⟨halone, hf, hstore, hcontrol, fun hi => ?_, fun hi => ?_, ?_, ?_, ?_⟩
    · exact ⟨k, Nat.le_trans hk (removes_le_two hi), hk, hlen, ht⟩
    · rw [removes_eq_zero hi, Nat.le_zero] at hk
      rw [ht, hk, List.drop_zero]
    · rintro op tag rfl hr
      simp only [execute, typed_of_not_accepts hr] at hx
      cases hx
      exact ⟨rfl, rfl⟩
    · rintro n rfl
      exact print_error hx
    · rintro tag rfl
      have hread := read_takes tag s
      rwa [show read tag s = .error f t from hx] at hread

/-- A comparison whose second operand is of another type has lost both. -/
example (p : Linked) (k : Sink) :
    ((Instr.typed .eq .bool).execute p).run { stack := [.bool true, .int 1, .int 2], sink := k } =
      .error (.operandMismatch (.typed .eq) .bool .int) { stack := [.int 2], sink := k } := rfl

end Instr

end StackLang
