/-
  Constants on their way from a program to the stack.

  * `Number.readInteger_integerText`: the text of a 64-bit integer is read back, also at
    both ends of the range;
  * `Constant` are the values that every program can write down: ints, bools and strings;
  * the text of a constant denotes it (`Constant.ofLiteral_text`) and can be written in
    code (`Constant.expressible_push`), so it survives being written, read and executed:
    `Constant.survives`.
-/
import StackLang.Gen.Expr
import StackLang.Proofs.Expressible
import StackLang.Proofs.Step

namespace StackLang

open Text

/-! ## Integers -/

namespace Number

theorem le_foldl_digits (cs : List Char) (n : Nat) :
    n ≤ cs.foldl (fun n c => 10 * n + digitValue c) n := by
  induction cs generalizing n with
  | nil => exact Nat.le_refl n
  | cons c cs ih =>
    have hstep : n ≤ 10 * n + digitValue c := by omega
    exact Nat.le_trans hstep (ih _)

/-- Digits are read if the number that they denote is in range.  No prefix of them is
    above it. -/
theorem readMagnitude_of_le {bound : Nat} {overflow : IntegerFault} {cs : List Char} {n : Nat}
    (hd : ∀ c ∈ cs, c.isDigit = true)
    (hle : cs.foldl (fun n c => 10 * n + digitValue c) n ≤ bound) :
    readMagnitude bound overflow n cs = .ok (cs.foldl (fun n c => 10 * n + digitValue c) n) := by
  induction cs generalizing n with
  | nil => rfl
  | cons c cs ih =>
    obtain ⟨hc, hcs⟩ := List.forall_mem_cons.1 hd
    have hfit : 10 * n + digitValue c ≤ bound := Nat.le_trans (le_foldl_digits cs _) hle
    rw [readMagnitude, if_pos hc, if_pos hfit, ih hcs hle]
    rfl

theorem readMagnitude_naturalText {bound n : Nat} {overflow : IntegerFault} (h : n ≤ bound) :
    readMagnitude bound overflow 0 (naturalText n) = .ok n := by
  have hvalue := digitsValue_naturalText n
  rw [readMagnitude_of_le (fun c => isDigit_naturalText) (by rwa [← digitsValue, hvalue]),
    ← digitsValue, hvalue]

theorem naturalText_cons (n : Nat) : ∃ c cs, naturalText n = c :: cs ∧ c ≠ '+' ∧ c ≠ '-' := by
  obtain ⟨c, cs, hcs⟩ := List.exists_cons_of_ne_nil (l := naturalText n) Nat.toDigits_ne_nil
  have hc : c.isDigit = true := isDigit_naturalText (n := n) (hcs ▸ List.mem_cons_self)
  refine ⟨c, cs, hcs, ?_, ?_⟩ <;> (rintro rfl; cases hc)

theorem readInteger_naturalText {n : Nat} (h : n < Nat.pow 2 63) :
    readInteger (naturalText n) = .ok (Int64.ofInt n) := by
  have hread : readMagnitude (Nat.pow 2 63 - 1) .tooLarge 0 (naturalText n) = .ok n :=
    readMagnitude_naturalText (Nat.le_sub_one_of_lt h)
  obtain ⟨c, cs, hcs, hplus, hminus⟩ := naturalText_cons n
  rw [hcs] at hread ⊢
  rw [readInteger, hread]
  · rfl
  all_goals simp [hplus, hminus]

theorem readInteger_minus {n : Nat} (h : n ≤ Nat.pow 2 63) :
    readInteger ('-' :: naturalText n) = .ok (Int64.ofInt (-n)) := by
  have hread : readMagnitude (Nat.pow 2 63) .tooSmall 0 (naturalText n) = .ok n :=
    readMagnitude_naturalText h
  obtain ⟨c, cs, hcs, -, -⟩ := naturalText_cons n
  rw [hcs] at hread ⊢
  rw [readInteger, hread]
  · rfl
  · simp

/-- **The text of an integer is read back.** -/
theorem readInteger_integerText (n : Int64) : readInteger (integerText n) = .ok n := by
  have hback : Int64.ofInt n.toInt = n := Int64.ofInt_toInt n
  have hlow := n.le_toInt
  have hhigh := n.toInt_lt
  rw [integerText]
  cases hn : n.toInt with
  | ofNat k =>
    rw [hn] at hback hhigh
    have hk : k < Nat.pow 2 63 := by
      simp at hhigh ⊢
      omega
    rw [intText, readInteger_naturalText hk]
    exact congrArg _ hback
  | negSucc k =>
    rw [hn] at hback hlow
    have hk : k + 1 ≤ Nat.pow 2 63 := by
      simp at hlow ⊢
      omega
    rw [intText, readInteger_minus hk]
    exact congrArg _ hback

theorem integerText_word (n : Int64) :
    integerText n ≠ [] ∧ ∀ c ∈ integerText n, isBlank c = false := by
  have hword (k : Nat) : ∀ c ∈ naturalText k, isBlank c = false :=
    fun c hc => not_blank_of_isDigit (isDigit_naturalText hc)
  rw [integerText]
  cases n.toInt with
  | ofNat k => exact ⟨Nat.toDigits_ne_nil, hword k⟩
  | negSucc k =>
    exact ⟨List.cons_ne_nil _ _, List.forall_mem_cons.2 ⟨by decide, hword (k + 1)⟩⟩

end Number

/-! ## Constants -/

theorem Linked.step_push {W : Type} [Writer W] {p : Linked} {s : State W} {tag : Tag}
    {text : String} {v : Value} (h : p.get? s.ip = some (.push tag text))
    (hv : Value.ofLiteral tag text = .ok v) :
    p.step s = .next { s with ip := s.ip + 1, stack := v :: s.stack } := by
  refine step_eq_next h ?_
  simp only [Instr.execute, Exec.constant, hv]
  rfl

/-- The values that have a literal of their own. -/
inductive Constant where
  | int (n : Int64)
  | bool (b : Bool)
  | string (s : String)
  deriving DecidableEq

namespace Constant

/-- The literal of a constant. -/
def expr : Constant → Expr
  | int n => .int n
  | bool b => .bool b
  | string s => .string s

/-- The value of a constant. -/
def value : Constant → Value
  | int n => .int n
  | bool b => .bool b
  | string s => .string s

/-- The text of a literal. -/
def text : Constant → String
  | int n => String.ofList (Number.integerText n)
  | bool b => if b then "true" else "false"
  | string s => "\"" ++ s ++ "\""

theorem expr_eq (c : Constant) : c.expr = .lit c.value.tag c.text := by
  cases c <;> rfl

theorem toList_text_string (s : String) :
    (string s).text.toList = '"' :: s.toList ++ ['"'] := by
  simp [text]

/-- The quotes around a string are dropped, and none of its own. -/
theorem unquote_quoted (cs : List Char) : unquote ('"' :: cs ++ ['"']) = cs := by
  simp [unquote]

/-- **The text of a constant denotes it.** -/
theorem ofLiteral_text (c : Constant) : Value.ofLiteral c.value.tag c.text = .ok c.value := by
  cases c with
  | int n =>
    obtain ⟨hne, hword⟩ := Number.integerText_word n
    simp only [value, Value.tag, text, Value.ofLiteral, Value.read, String.toList_ofList,
      trim_of_ends (ends_of_word hne hword).1, Number.readInteger_integerText]
    rfl
  | bool b => cases b <;> decide
  | string s =>
    simp only [value, Value.tag, Value.ofLiteral, toList_text_string, unquote_quoted,
      String.ofList_toList]

theorem expressible_push (c : Constant) : (Instr.push c.value.tag c.text).expressible = true := by
  cases c with
  | int n =>
    obtain ⟨hne, hword⟩ := Number.integerText_word n
    obtain ⟨hends, hn⟩ := ends_of_word hne hword
    simp [value, Value.tag, text, Instr.expressible, expressibleConstant, hends, hn]
  | bool b => cases b <;> decide +kernel
  | string s =>
    have hquote : ends isMark ['"'] = true := by decide
    simp only [value, Value.tag, Instr.expressible, expressibleConstant, toList_text_string]
    refine ends_append (fun c hc => ?_) hquote
    obtain rfl : '"' = c := Option.some.inj hc
    decide

/-- **Constants survive the whole way.**  The code of an int, a bool or a string is read
    back from its text, and it links.  From every state at its start, the machine runs to
    the end of it and leaves exactly the constant on the stack. -/
theorem survives (c : Constant) (g : GenState) : ∃ code p,
    c.expr.gen g = ⟨code, g, .ok ()⟩ ∧ Code.parse (Code.text code) = .ok code ∧
      Code.link code = .ok p ∧ ∀ {W : Type} [Writer W] (s : State W) (k : W),
        s.ip = 0 → Writer.flush s.sink = (.ok (), k) → ∀ n, p.run (n + 2) s =
          ({ s with ip := 1, stack := c.value :: s.stack, sink := k }, .done) := by
  let i := Instr.push c.value.tag c.text
  let p : Linked := ⟨#[i], []⟩
  refine ⟨[i], p, by rw [expr_eq]; rfl, ?_, rfl, fun {W} _ s k hs hflush n => ?_⟩
  · exact Code.parse_text_of_expressible (List.forall_mem_singleton.2 c.expressible_push)
  · let t : State W := { s with ip := 1, stack := c.value :: s.stack }
    have hget : p.get? s.ip = some i := by rw [hs]; rfl
    have hpush : p.step s = .next t := by rw [Linked.step_push hget c.ofLiteral_text, hs]
    have hend : p.step t = .halted := Linked.step_eq_halted rfl
    have hdone : p.finish t = ({ t with sink := k }, .done) := by
      simp only [Linked.finish, t, hflush]
    simp only [Linked.run, hpush, hend, hdone, t]

end Constant

end StackLang
