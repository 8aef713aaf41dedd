/-
  The grammar of lines.

  * `Text.Cut line t word rest`: without the blanks around it the line is the text `t`,
    which consists of the word, blanks, and the rest.  There is one way to cut a line
    (`Text.cut_iff`);
  * `Opcode.Reads op cs i`: the text is an operand of the operation, and together they are
    the instruction `i`;
  * `Instr.parse_grammar`: a line is read exactly if it is a word that names an operation
    and an operand of this operation on one line; otherwise the operation is unknown or the
    instruction is malformed.
-/
import StackLang.Proofs.Expressible

namespace StackLang

namespace Text

variable {line t word rest : List Char}

/-! ## Cutting a line -/

/-- The text is the line without the blanks around it, and it consists of a word, blanks,
    and a rest.  The word ends at the first blank, and the rest starts behind the last blank
    that follows it. -/
structure Cut (line t word rest : List Char) : Prop where
  trimmed : ∃ before behind, line = before ++ t ++ behind ∧
    (∀ c ∈ before, isBlank c = true) ∧ ∀ c ∈ behind, isBlank c = true
  head : ∀ c, t.head? = some c → isBlank c = false
  last : ∀ c, t.getLast? = some c → isBlank c = false
  split : ∃ gap, t = word ++ (gap ++ rest) ∧ (∀ c ∈ gap, isBlank c = true) ∧ (gap = [] → rest = [])
  word : ∀ c ∈ word, isBlank c = false
  rest : ∀ c, rest.head? = some c → isBlank c = false

theorem trimStart_blanks_append {w cs : List Char} (hw : ∀ c ∈ w, isBlank c = true)
    (hcs : ∀ c, cs.head? = some c → isBlank c = false) : trimStart (w ++ cs) = cs := by
  rw [trimStart, List.dropWhile_append_of_pos hw]
  exact trimStart_of_head hcs

theorem exists_trim (cs : List Char) : ∃ before behind, cs = before ++ trim cs ++ behind ∧
    (∀ c ∈ before, isBlank c = true) ∧ ∀ c ∈ behind, isBlank c = true := by
  refine ⟨cs.takeWhile isBlank, ((trimStart cs).reverse.takeWhile isBlank).reverse, ?_,
    fun c hc => (List.mem_takeWhile_imp hc), fun c hc => ?_⟩
  · have hend : trim cs ++ ((trimStart cs).reverse.takeWhile isBlank).reverse = trimStart cs := by
      rw [trim, trimEnd, ← List.reverse_append, List.takeWhile_append_dropWhile,
        List.reverse_reverse]
    rw [List.append_assoc, hend, trimStart, List.takeWhile_append_dropWhile]
  · exact List.mem_takeWhile_imp (List.mem_reverse.1 hc)

theorem head?_splitWord {cs : List Char} {c : Char} (h : (splitWord cs).2.head? = some c) :
    isBlank c = true := by
  have hnot := List.head?_dropWhile_not (!isBlank ·) cs
  rw [splitWord] at h
  rw [h] at hnot
  simpa using hnot

theorem exists_gap (cs : List Char) (h : ∀ c, cs.head? = some c → isBlank c = true) :
    ∃ gap, cs = gap ++ trimStart cs ∧ (∀ c ∈ gap, isBlank c = true) ∧ (gap = [] → cs = []) := by
  refine ⟨cs.takeWhile isBlank, List.takeWhile_append_dropWhile.symm,
    fun c hc => List.mem_takeWhile_imp hc, fun hnil => ?_⟩
  cases cs with
  | nil => rfl
  | cons c cs => simp [h c rfl] at hnil

theorem cut_splitWord (line : List Char) : Cut line (trim line) (splitWord (trim line)).1
    (trimStart (splitWord (trim line)).2) where
  trimmed := exists_trim line
  head c hc := by
    have hne : trim line ≠ [] := by
      intro h
      rw [h] at hc
      cases hc
    simpa using (ends_iff.1 (ends_trim hne)).2.1 c hc
  last c hc := getLast?_trimEnd hc
  split := by
    obtain ⟨gap, hgap, hblank, hnil⟩ := exists_gap (splitWord (trim line)).2 fun _ => head?_splitWord
    refine ⟨gap, by rw [← hgap, splitWord_append], hblank, fun h => ?_⟩
    rw [hnil h, trimStart_nil]
  word c hc := by simpa using List.mem_takeWhile_imp hc
  rest _ := head?_trimStart

/-- **There is one way to cut a line.** -/
theorem cut_iff : Cut line t word rest ↔ t = trim line ∧ word = (splitWord (trim line)).1 ∧
    rest = trimStart (splitWord (trim line)).2 := by
  constructor
  · intro h
    obtain ⟨before, behind, hline, hbefore, hbehind⟩ := h.trimmed
    obtain ⟨gap, ht, hgap, hnil⟩ := h.split
    have htrim : trim line = t := by
      rw [hline, eq_of_append_blanks trim_concat_blank hbehind,
        eq_of_blanks_append trim_cons_blank hbefore, trim, trimStart_of_head h.head,
        trimEnd_of_last h.last]
    have hsplit : splitWord t = (word, gap ++ rest) := by
      rw [ht]
      refine splitWord_of_word h.word fun c hc => ?_
      cases gap with
      | nil => rw [hnil rfl] at hc; cases hc
      | cons d gap =>
        cases hc
        exact hgap c List.mem_cons_self
    rw [htrim, hsplit, trimStart_blanks_append hgap h.rest]
    exact ⟨rfl, rfl, rfl⟩
  · rintro ⟨rfl, rfl, rfl⟩
    exact cut_splitWord line

end Text

open Text

/-! ## Operands -/

/-- What may follow the name of an operation, and the instruction that is read. -/
inductive Opcode.Reads : Opcode → List Char → Instr → Prop
  | plain {op : Plain} : Reads (.plain op) [] (.plain op)
  | typed {op : Typed} {tag : Tag} : Reads (.typed op) [tag.letter] (.typed op tag)
  /-- a name is one word -/
  | named {op : Named} {cs : List Char} : cs ≠ [] → (∀ c ∈ cs, isBlank c = false) →
      Reads (.named op) cs (.named op (String.ofList cs))
  /-- a count has digits and may have a plus sign -/
  | print {sign ds : List Char} : sign = [] ∨ sign = ['+'] → ds ≠ [] →
      (∀ c ∈ ds, c.isDigit = true) → Number.digitsValue ds < Nat.pow 2 64 →
      Reads .print (sign ++ ds) (.print (Number.digitsValue ds))
  /-- a constant follows its tag and blanks; in a string escapes are resolved -/
  | push {tag : Tag} {gap text : List Char} : gap ≠ [] → (∀ c ∈ gap, isBlank c = true) →
      text ≠ [] → (∀ c, text.head? = some c → isBlank c = false) →
      Reads .push (tag.letter :: (gap ++ text))
        (.push tag (String.ofList (if tag = .string then unescape text else text)))

theorem Tag.ofText?_eq_some {s : String} {tag : Tag} : ofText? s = some tag ↔ s = tag.text := by
  constructor
  · intro h
    unfold ofText? at h
    split_ifs at h with hs hs hs hs <;> cases h <;> exact hs
  · rintro rfl
    exact ofText?_text tag

theorem parseTag_eq_ok {cs : List Char} {tag : Tag} : parseTag cs = .ok tag ↔ cs = [tag.letter] := by
  have hread : parseTag cs = .ok tag ↔ Tag.ofText? (String.ofList cs) = some tag := by
    unfold parseTag
    split <;> simp_all
  rw [hread, Tag.ofText?_eq_some, Tag.text, ← String.toList_inj, String.toList_ofList,
    String.toList_singleton]

theorem parseTag_error {cs : List Char} {f : Fault} (h : parseTag cs = .error f) :
    ∃ cause, f = .malformed cause := by
  unfold parseTag at h
  split at h <;> cases h
  exact ⟨_, rfl⟩

theorem parseConstant_eq (tag : Tag) (text : List Char) : parseConstant tag text =
    String.ofList (if tag = .string then unescape text else text) := by
  cases tag <;> rfl

/-- A plus sign in front of a count does not count. -/
theorem parseCount?_cases (cs : List Char) : ∃ sign ds, cs = sign ++ ds ∧
    (sign = [] ∧ ds.head? ≠ some '+' ∨ sign = ['+']) ∧ parseCount? cs =
      if !ds.isEmpty && ds.all Char.isDigit && decide (Number.digitsValue ds < Nat.pow 2 64) then
        some (Number.digitsValue ds)
      else none := by
  unfold parseCount?
  split
  · next ds => exact ⟨['+'], ds, rfl, .inr rfl, rfl⟩
  · next hplus =>
    refine ⟨[], cs, rfl, .inl ⟨rfl, fun hhead => ?_⟩, rfl⟩
    obtain ⟨ds, rfl⟩ := List.head?_eq_some_iff.1 hhead
    exact hplus ds rfl

theorem parseCount?_eq_some {cs : List Char} {n : Nat} : parseCount? cs = some n ↔
    ∃ sign ds, cs = sign ++ ds ∧ (sign = [] ∨ sign = ['+']) ∧ ds ≠ [] ∧
      (∀ c ∈ ds, c.isDigit = true) ∧ Number.digitsValue ds < Nat.pow 2 64 ∧
      n = Number.digitsValue ds := by
  obtain ⟨sign, ds, hcs, hsign, hcount⟩ := parseCount?_cases cs
  simp only [hcount, Option.ite_none_right_eq_some, Option.some.injEq, Bool.and_eq_true,
    Bool.not_eq_true', List.isEmpty_eq_false_iff, List.all_eq_true, decide_eq_true_eq]
  constructor
  · rintro ⟨⟨⟨hne, hdigits⟩, hlt⟩, rfl⟩
    exact ⟨sign, ds, hcs, hsign.imp_left And.left, hne, hdigits, hlt, rfl⟩
  · rintro ⟨sign', ds', hcs', hsign', hne, hdigits, hlt, rfl⟩
    -- digits do not start with a sign, so there is one way to cut it off
    obtain rfl : ds = ds' := by
      rw [hcs] at hcs'
      rcases hsign with ⟨rfl, hplus⟩ | rfl <;> rcases hsign' with rfl | rfl
      · exact hcs'
      · rw [List.nil_append] at hcs'
        rw [hcs'] at hplus
        exact absurd rfl hplus
      · rw [List.nil_append] at hcs'
        cases hdigits '+' (by rw [← hcs']; exact List.mem_cons_self)
      · exact List.append_cancel_left hcs'
    exact ⟨⟨⟨hne, hdigits⟩, hlt⟩, rfl⟩

theorem Opcode.parse_push_iff {cs : List Char} {i : Instr}
    (hlast : ∀ c, cs.getLast? = some c → isBlank c = false) :
    Opcode.push.parse cs = .ok i ↔ Opcode.push.Reads cs i := by
  constructor
  · intro h
    have hsplit := splitWord_append cs
    obtain ⟨gap, hgap, hblank, hnil⟩ := exists_gap (splitWord cs).2 fun _ => head?_splitWord
    simp only [parse, List.isEmpty_iff] at h
    split at h
    · cases h
    · next hrest =>
      cases htag : parseTag (splitWord cs).1 with
      | error f => rw [htag] at h; cases h
      | ok tag =>
        rw [htag] at h
        obtain rfl : Instr.push tag (parseConstant tag (trimStart (splitWord cs).2)) = i :=
          Except.ok.inj h
        -- the constant ends where the operand ends, which is not in blanks
        have hends : ends (!isBlank ·) (trimStart (splitWord cs).2) = true := by
          refine ends_trimStart hrest ?_
          rwa [getLast?_of_suffix (hsplit ▸ List.suffix_append _ _) hrest]
        obtain ⟨htext, hhead, -⟩ := ends_iff.1 hends
        have hcs : cs = tag.letter :: (gap ++ trimStart (splitWord cs).2) := by
          rw [← hgap, ← List.singleton_append, ← parseTag_eq_ok.1 htag, hsplit]
        rw [parseConstant_eq]
        generalize trimStart (splitWord cs).2 = text at htext hhead hcs
        rw [hcs]
        exact .push (mt hnil hrest) hblank htext (by simpa using hhead)
  · intro h
    cases h with
    | @push tag gap text hgap hblank htext hhead =>
      have hword : splitWord (tag.letter :: (gap ++ text)) = ([tag.letter], gap ++ text) := by
        have hfirst : ∀ c, (gap ++ text).head? = some c → isBlank c = true := by
          intro c hc
          rw [← head?_of_start (List.prefix_append gap text) hgap] at hc
          exact hblank c (List.mem_of_head? hc)
        exact splitWord_of_word tag.letter_word hfirst
      have hne : (gap ++ text).isEmpty = false := by simp [hgap]
      simp only [parse, hword, hne, Bool.false_eq_true, if_false, parseTag_letter,
        trimStart_blanks_append hblank hhead, Except.map, parseConstant_eq]

/-- **Operands are read exactly as the grammar says.** -/
theorem Opcode.parse_iff_reads {op : Opcode} {cs : List Char} {i : Instr}
    (hlast : ∀ c, cs.getLast? = some c → isBlank c = false) :
    op.parse cs = .ok i ↔ op.Reads cs i := by
  cases op with
  | push => exact parse_push_iff hlast
  | print =>
    have hparse : Opcode.print.parse cs = .ok i ↔ ∃ n, parseCount? cs = some n ∧ i = .print n := by
      simp only [parse]
      cases parseCount? cs <;> simp [eq_comm]
    rw [hparse]
    constructor
    · rintro ⟨n, hn, rfl⟩
      obtain ⟨sign, ds, rfl, hsign, hne, hdigits, hlt, rfl⟩ := parseCount?_eq_some.1 hn
      exact .print hsign hne hdigits hlt
    · rintro ⟨⟩
      next sign ds hsign hne hdigits hlt =>
      exact ⟨_, parseCount?_eq_some.2 ⟨sign, ds, rfl, hsign, hne, hdigits, hlt, rfl⟩, rfl⟩
  | plain op =>
    simp only [parse, List.isEmpty_iff]
    constructor
    · intro h
      split at h
      · next hnil =>
        cases h
        rw [hnil]
        exact .plain
      · cases h
    · rintro ⟨⟩
      rfl
  | typed op =>
    simp only [parse]
    constructor
    · intro h
      cases htag : parseTag cs with
      | error f => rw [htag] at h; cases h
      | ok tag =>
        rw [htag] at h
        cases h
        rw [parseTag_eq_ok.1 htag]
        exact .typed
    · rintro ⟨⟩
      rw [parseTag_letter]
      rfl
  | named op =>
    simp only [parse, Bool.and_eq_true, Bool.not_eq_true', List.isEmpty_eq_false_iff,
      List.all_eq_true]
    constructor
    · intro h
      split at h
      · next hname =>
        cases h
        exact .named hname.1 hname.2
      · cases h
    · rintro ⟨⟩
      next hne hword => exact if_pos ⟨hne, hword⟩

theorem Opcode.parse_error {op : Opcode} {cs : List Char} {f : Fault}
    (h : op.parse cs = .error f) : ∃ cause, f = .malformed cause := by
  cases op with
  | push =>
    simp only [parse] at h
    split at h
    · cases h
      exact ⟨_, rfl⟩
    · cases htag : parseTag (splitWord cs).1 with
      | ok tag => rw [htag] at h; cases h
      | error f' =>
        rw [htag] at h
        cases h
        exact parseTag_error htag
  | print =>
    simp only [parse] at h
    split at h <;> cases h
    exact ⟨_, rfl⟩
  | plain op | named op =>
    simp only [parse] at h
    split at h <;> cases h
    exact ⟨_, rfl⟩
  | typed op =>
    simp only [parse] at h
    cases htag : parseTag cs with
    | ok tag => rw [htag] at h; cases h
    | error f' =>
      rw [htag] at h
      cases h
      exact parseTag_error htag

/-! ## Lines -/

theorem Opcode.ofName?_eq_some {word : List Char} {op : Opcode} :
    ofName? (String.ofList word) = some op ↔ op.name.toList = word := by
  constructor
  · intro h
    have hname : op.name = String.ofList word := by simpa using List.find?_some h
    rw [hname, String.toList_ofList]
  · rintro rfl
    rw [String.ofList_toList, op.ofName?_name]

namespace Instr

variable {line t word rest : List Char}

/-- A line without an operation, or with a line break behind it. -/
theorem parse_of_unreadable (hcut : Cut line t word rest) (h : ¬ (t ≠ [] ∧ '\n' ∉ rest)) :
    Instr.parse line = .error (.malformed (.unreadable (String.ofList line))) := by
  obtain ⟨rfl, rfl, rfl⟩ := cut_iff.1 hcut
  refine if_pos ?_
  rw [Bool.or_eq_true, List.isEmpty_iff, List.contains_iff_mem]
  by_contra hnot
  exact h (not_or.1 hnot)

/-- A line on which something follows the name of an operation. -/
theorem parse_of_readable (hcut : Cut line t word rest) (ht : t ≠ []) (hrest : '\n' ∉ rest) :
    Instr.parse line =
      match Opcode.ofName? (String.ofList word) with
      | some op => op.parse rest
      | none => .error (.unknownOpcode (String.ofList word)) := by
  obtain ⟨rfl, rfl, rfl⟩ := cut_iff.1 hcut
  refine if_neg ?_
  rw [Bool.or_eq_true, List.isEmpty_iff, List.contains_iff_mem]
  exact not_or.2 ⟨ht, hrest⟩

theorem getLast?_rest (hcut : Cut line t word rest) :
    ∀ c, rest.getLast? = some c → isBlank c = false := by
  intro c hc
  obtain ⟨gap, ht, -, -⟩ := hcut.split
  have hne : rest ≠ [] := by
    rintro rfl
    cases hc
  have hsuffix : rest <:+ t := ht ▸ ((List.suffix_append gap rest).trans (List.suffix_append word _))
  exact hcut.last c (by rwa [← getLast?_of_suffix hsuffix hne])

theorem parse_eq_ok_iff (hcut : Cut line t word rest) {i : Instr} : Instr.parse line = .ok i ↔
    t ≠ [] ∧ '\n' ∉ rest ∧ ∃ op : Opcode, op.name.toList = word ∧ op.Reads rest i := by
  simp only [← Opcode.ofName?_eq_some]
  by_cases hread : t ≠ [] ∧ '\n' ∉ rest
  · obtain ⟨ht, hrest⟩ := hread
    rw [parse_of_readable hcut ht hrest]
    cases Opcode.ofName? (String.ofList word) with
    | none => simp
    | some op => simp [ht, hrest, Opcode.parse_iff_reads (getLast?_rest hcut)]
  · rw [parse_of_unreadable hcut hread]
    simp only [reduceCtorEq, false_iff]
    exact fun h => hread ⟨h.1, h.2.1⟩

/-- An operation is unknown if its line can be read but for its word. -/
theorem parse_eq_unknown_iff (hcut : Cut line t word rest) {name : String} :
    Instr.parse line = .error (.unknownOpcode name) ↔
      t ≠ [] ∧ '\n' ∉ rest ∧ (∀ op : Opcode, op.name.toList ≠ word) ∧ name = String.ofList word := by
  simp only [ne_eq, ← Opcode.ofName?_eq_some]
  by_cases hread : t ≠ [] ∧ '\n' ∉ rest
  · obtain ⟨ht, hrest⟩ := hread
    rw [parse_of_readable hcut ht hrest]
    cases Opcode.ofName? (String.ofList word) with
    | none => simp [ht, hrest, eq_comm]
    | some op =>
      refine ⟨fun h => ?_, fun ⟨_, _, hnone, _⟩ => absurd rfl (hnone op)⟩
      obtain ⟨cause, hcause⟩ := Opcode.parse_error h
      cases hcause
  · rw [parse_of_unreadable hcut hread]
    simp only [Except.error.injEq, reduceCtorEq, false_iff]
    exact fun h => hread ⟨h.1, h.2.1⟩

theorem parse_error_cases {f : Fault} (h : Instr.parse line = .error f) :
    (∃ name, f = .unknownOpcode name) ∨ ∃ cause, f = .malformed cause := by
  have hcut := cut_splitWord line
  by_cases hread : trim line ≠ [] ∧ '\n' ∉ trimStart (splitWord (trim line)).2
  · rw [parse_of_readable hcut hread.1 hread.2] at h
    split at h
    · exact .inr (Opcode.parse_error h)
    · cases h
      exact .inl ⟨_, rfl⟩
  · rw [parse_of_unreadable hcut hread] at h
    cases h
    exact .inr ⟨_, rfl⟩

/-- **The grammar of lines.**  Every line is cut in one way: into blanks at its ends, a
    word, blanks, and a rest.  It is read as an instruction exactly if it is not blank, the
    rest has no line feed, the word names an operation, and the rest is an operand of this
    operation.  The operation is unknown exactly if the line is not blank, the rest has no line
    feed, and the word names none.  In all other cases the instruction is malformed. -/
theorem parse_grammar (line : List Char) : ∃ t word rest,
    (∀ t' word' rest', Cut line t' word' rest' ↔ t' = t ∧ word' = word ∧ rest' = rest) ∧
    (∀ i, Instr.parse line = .ok i ↔
      t ≠ [] ∧ '\n' ∉ rest ∧ ∃ op : Opcode, op.name.toList = word ∧ op.Reads rest i) ∧
    (∀ name, Instr.parse line = .error (.unknownOpcode name) ↔
      t ≠ [] ∧ '\n' ∉ rest ∧ (∀ op : Opcode, op.name.toList ≠ word) ∧ name = String.ofList word) ∧
    ((∃ cause, Instr.parse line = .error (.malformed cause)) ↔
      ¬ (t ≠ [] ∧ '\n' ∉ rest ∧ ((∀ op : Opcode, op.name.toList ≠ word) ∨
        ∃ (op : Opcode) (i : Instr), op.name.toList = word ∧ op.Reads rest i))) := by
  have hcut := cut_splitWord line
  refine ⟨_, _, _, fun t' word' rest' => cut_iff, fun _ => parse_eq_ok_iff hcut,
    fun _ => parse_eq_unknown_iff hcut, ?_⟩
  constructor
  · rintro ⟨cause, hcause⟩ ⟨ht, hrest, hnone | ⟨op, i, hi⟩⟩
    · rw [(parse_eq_unknown_iff hcut).2 ⟨ht, hrest, hnone, rfl⟩] at hcause
      cases hcause
    · rw [(parse_eq_ok_iff hcut).2 ⟨ht, hrest, op, hi⟩] at hcause
      cases hcause
  · intro hnot
    cases hp : Instr.parse line with
    | ok i =>
      obtain ⟨ht, hrest, op, hi⟩ := (parse_eq_ok_iff hcut).1 hp
      exact absurd ⟨ht, hrest, .inr ⟨op, i, hi⟩⟩ hnot
    | error f =>
      rcases parse_error_cases hp with ⟨name, rfl⟩ | ⟨cause, rfl⟩
      · obtain ⟨ht, hrest, hnone, -⟩ := (parse_eq_unknown_iff hcut).1 hp
        exact absurd ⟨ht, hrest, .inl hnone⟩ hnot
      · exact ⟨cause, rfl⟩

/-- The operations and their names. -/
example : Opcode.all.map Opcode.name = ["push", "print", "mod", "concat", "and", "or", "not", "itof",
    "dup", "pop", "add", "sub", "mul", "div", "uminus", "lt", "gt", "eq", "read", "load", "save",
    "jmp", "fjmp", "label"] := by decide

end Instr

end StackLang
