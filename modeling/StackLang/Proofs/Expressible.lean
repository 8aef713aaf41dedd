/-
  Which instructions can be written down.

  * `Instr.expressible i`: the names and constants of the instruction survive in its
    text.  A name has no blanks.  A constant neither starts nor ends with a blank; a
    line break may stand in a string constant only, where it is escaped;
  * `Instr.parse_chars`: the text of an expressible instruction is read back as this
    instruction;
  * `Instr.expressible_of_parse`: nothing else is ever read;
  * `Code.parse_text_iff`: code is read back from its text exactly if all its
    instructions are expressible;
  * `Code.reformat_stable`: code that was read from any text, however it was spaced
    and spelled, is read back from the text that is written for it.
-/
import StackLang.Code.Text
import StackLang.Proofs.Layout

namespace StackLang

open Text

/-- The constant of a `push` can be written. -/
def expressibleConstant (tag : Tag) (text : String) : Bool :=
  match tag with
  | .string => ends isMark text.toList
  | _ => ends (!isBlank ·) text.toList && !text.toList.contains '\n'

/-- The instruction can be written.  Counts have 64 bits. -/
def Instr.expressible : Instr → Bool
  | .push tag text => expressibleConstant tag text
  | .print n => n < Nat.pow 2 64
  | .plain _ | .typed _ _ => true
  | .named _ x => !x.toList.isEmpty && x.toList.all (!isBlank ·)

/-! ## Reading -/

theorem expressible_parseConstant {tag : Tag} {cs : List Char} (h : ends (!isBlank ·) cs = true)
    (hn : '\n' ∉ cs) : expressibleConstant tag (parseConstant tag cs) = true := by
  cases tag with
  | string =>
    simp only [expressibleConstant, parseConstant, String.toList_ofList]
    exact ends_unescape h
  | int | float | bool =>
    simp only [expressibleConstant, parseConstant, String.toList_ofList, h, Bool.true_and]
    simpa using hn

/-- An operand that is read gives an expressible instruction. -/
theorem Opcode.expressible_of_parse {op : Opcode} {cs : List Char} {i : Instr}
    (h : op.parse cs = .ok i) (hlast : ∀ c, cs.getLast? = some c → isBlank c = false)
    (hn : '\n' ∉ cs) : i.expressible = true := by
  cases op with
  | push =>
    rcases hs : splitWord cs with ⟨word, rest⟩
    have hsuffix : rest <:+ cs := by
      obtain rfl : cs.dropWhile (!isBlank ·) = rest := congrArg Prod.snd hs
      exact List.dropWhile_suffix _
    simp only [parse, hs] at h
    split at h
    · cases h
    · next hne =>
      rw [List.isEmpty_iff] at hne
      cases ht : parseTag word with
      | error f => rw [ht] at h; cases h
      | ok tag =>
        rw [ht] at h
        cases h
        refine expressible_parseConstant (ends_trimStart hne ?_) ?_
        · rwa [getLast?_of_suffix hsuffix hne]
        · exact fun hmem => hn (((trimStart_suffix rest).trans hsuffix).mem hmem)
  | print =>
    simp only [parse] at h
    cases hc : parseCount? cs with
    | none => rw [hc] at h; cases h
    | some n =>
      rw [hc] at h
      cases h
      simp only [parseCount?, Option.ite_none_right_eq_some, Bool.and_eq_true,
        Option.some.injEq] at hc
      obtain ⟨⟨-, hlt⟩, rfl⟩ := hc
      exact hlt
  | plain op =>
    simp only [parse] at h
    split at h <;> cases h
    rfl
  | typed op =>
    simp only [parse] at h
    cases ht : parseTag cs with
    | error f => rw [ht] at h; cases h
    | ok tag => rw [ht] at h; cases h; rfl
  | named op =>
    simp only [parse] at h
    split at h
    · next hname =>
      cases h
      simpa only [Instr.expressible, String.toList_ofList] using hname
    · cases h

/-- **Only expressible instructions are read.** -/
theorem Instr.expressible_of_parse {line : List Char} {i : Instr} (h : Instr.parse line = .ok i) :
    i.expressible = true := by
  rcases hs : splitWord (trim line) with ⟨word, rest⟩
  simp only [parse, hs] at h
  split at h
  · cases h
  · next hread =>
    simp only [Bool.or_eq_true, List.isEmpty_iff, List.contains_iff_mem, not_or] at hread
    cases hop : Opcode.ofName? (String.ofList word) with
    | none => rw [hop] at h; cases h
    | some op =>
      rw [hop] at h
      refine Opcode.expressible_of_parse h (fun c hc => ?_) hread.2
      -- what ends the operand also ends the trimmed line
      have hsuffix : trimStart rest <:+ trim line := by
        obtain rfl : (trim line).dropWhile (!isBlank ·) = rest := congrArg Prod.snd hs
        exact (trimStart_suffix _).trans (List.dropWhile_suffix _)
      have hne : trimStart rest ≠ [] := by
        intro hnil
        rw [hnil] at hc
        cases hc
      rw [getLast?_of_suffix hsuffix hne] at hc
      simpa using (ends_iff.1 (ends_trim hread.1)).2.2 c hc

theorem Code.expressible_of_parseLines : ∀ {ls : List (List Char)} {k : Nat} {code : List Instr},
    parseLines k ls = .ok code → ∀ i ∈ code, i.expressible = true
  | [], _, code, h => by cases h; nofun
  | line :: ls, k, code, h => by
    simp only [parseLines] at h
    split at h
    · exact expressible_of_parseLines h
    · cases hi : Instr.parse (trim line) with
      | error f => rw [hi] at h; cases h
      | ok i =>
        rw [hi] at h
        cases hrest : parseLines (k + 1) ls with
        | error r => rw [hrest] at h; cases h
        | ok rest =>
          rw [hrest] at h
          cases h
          exact List.forall_mem_cons.2 ⟨i.expressible_of_parse hi, expressible_of_parseLines hrest⟩

/-! ## Writing -/

theorem Opcode.ofName?_name (op : Opcode) : ofName? op.name = some op := by
  have h : ∀ op ∈ all, ofName? op.name = some op := by decide
  exact h op op.mem_all

/-- The name of an operation is a word, and does not start a comment. -/
theorem Opcode.name_chars (op : Opcode) : ∃ c cs, op.name.toList = c :: cs ∧ c ≠ '/' ∧
    ∀ d ∈ c :: cs, isBlank d = false := by
  have h : ∀ op ∈ all, op.name.toList ≠ [] ∧ op.name.toList.head? ≠ some '/' ∧
      op.name.toList.all (!isBlank ·) = true := by decide +kernel
  obtain ⟨hne, hhead, hword⟩ := h op op.mem_all
  obtain ⟨c, cs, hname⟩ := List.exists_cons_of_ne_nil hne
  rw [hname] at hhead hword
  simp only [List.all_eq_true, Bool.not_eq_true'] at hword
  exact ⟨c, cs, hname, by simpa using hhead, hword⟩

theorem Tag.letter_not_blank (tag : Tag) : isBlank tag.letter = false := by
  cases tag <;> decide

theorem Tag.letter_word (tag : Tag) : ∀ c ∈ [tag.letter], isBlank c = false :=
  List.forall_mem_singleton.2 tag.letter_not_blank

theorem parseTag_letter (tag : Tag) : parseTag [tag.letter] = .ok tag := by
  cases tag <;> decide

/-- An expressible constant is one word or several, on one line. -/
theorem constantChars_of_expressible {tag : Tag} {text : String}
    (h : expressibleConstant tag text = true) :
    ends (!isBlank ·) (constantChars tag text) = true ∧ '\n' ∉ constantChars tag text := by
  cases tag with
  | string => exact ⟨ends_escape h, (not_mem_escape _).1⟩
  | int | float | bool =>
    simp only [expressibleConstant, Bool.and_eq_true] at h
    have hn : '\n' ∉ text.toList := by simpa using h.2
    exact ⟨h.1, hn⟩

theorem parseConstant_constantChars (tag : Tag) (text : String) :
    parseConstant tag (constantChars tag text) = text := by
  cases tag <;> simp [parseConstant, constantChars, unescape_escape]

theorem isDigit_naturalText {n : Nat} {c : Char} (h : c ∈ Number.naturalText n) :
    c.isDigit = true := Nat.isDigit_of_mem_toDigits (by decide) (by decide) h

theorem not_blank_of_isDigit {c : Char} (h : c.isDigit = true) : isBlank c = false := by
  have hlow : 48 ≤ c.toNat ∧ c.toNat ≤ 57 := by
    simpa [Char.isDigit, UInt32.le_iff_toNat_le] using h
  simp [isBlank, inRanges, blankRanges]
  omega

theorem digitsValue_naturalText (n : Nat) : Number.digitsValue (Number.naturalText n) = n :=
  Nat.ofDigitChars_toDigits (by decide) (by decide)

theorem parseCount?_naturalText {n : Nat} (h : n < Nat.pow 2 64) :
    parseCount? (Number.naturalText n) = some n := by
  have hvalue := digitsValue_naturalText n
  have hdigits : (Number.naturalText n).all Char.isDigit = true :=
    List.all_eq_true.2 fun c hc => isDigit_naturalText hc
  have hne : Number.naturalText n ≠ [] := Nat.toDigits_ne_nil
  unfold parseCount?
  split
  · next ds hplus =>
    rw [hplus] at hdigits
    cases hdigits
  · simp [hvalue, hdigits, hne, h]

/-- The text of an operand, without the blank before it. -/
def Instr.operand (i : Instr) : List Char := i.operandChars.tail

theorem Instr.operand_of_expressible {i : Instr} (h : i.expressible = true) :
    i.operandChars = [] ∨
      i.operandChars = ' ' :: i.operand ∧ ends (!isBlank ·) i.operand = true ∧ '\n' ∉ i.operand := by
  cases i with
  | push tag text =>
    obtain ⟨hends, hn⟩ := constantChars_of_expressible h
    have hletter : tag.letter ≠ '\n' := by cases tag <;> decide
    have hfirst : ∀ c, [tag.letter, ' '].head? = some c → (!isBlank c) = true := by
      rintro _ ⟨⟩
      simp [tag.letter_not_blank]
    refine .inr ⟨rfl, ends_append hfirst hends, ?_⟩
    simpa [operand, operandChars, hletter.symm] using hn
  | print n =>
    have hword := fun c hc => not_blank_of_isDigit (isDigit_naturalText (n := n) (c := c) hc)
    exact .inr ⟨rfl, ends_of_word Nat.toDigits_ne_nil hword⟩
  | plain op => exact .inl rfl
  | typed op tag =>
    exact .inr ⟨rfl, ends_of_word (List.cons_ne_nil _ _) tag.letter_word⟩
  | named op x =>
    simp only [expressible, Bool.and_eq_true, Bool.not_eq_true', List.isEmpty_eq_false_iff,
      List.all_eq_true] at h
    exact .inr ⟨rfl, ends_of_word h.1 h.2⟩

theorem Instr.parse_operand {i : Instr} (h : i.expressible = true) :
    i.opcode.parse i.operand = .ok i := by
  cases i with
  | push tag text =>
    obtain ⟨hends, -⟩ := constantChars_of_expressible h
    have hsplit : splitWord (tag.letter :: ' ' :: constantChars tag text) =
        ([tag.letter], ' ' :: constantChars tag text) := by
      refine splitWord_of_word tag.letter_word ?_
      rintro _ ⟨⟩; decide
    have htrim : trimStart (' ' :: constantChars tag text) = constantChars tag text :=
      trimStart_blank (by decide) hends
    simp only [opcode, operand, operandChars, List.tail_cons, Opcode.parse, hsplit, List.isEmpty_cons,
      Bool.false_eq_true, if_false, parseTag_letter, htrim, Except.map, parseConstant_constantChars]
  | print n =>
    have hcount : parseCount? (Number.naturalText n) = some n :=
      parseCount?_naturalText (by simpa [expressible] using h)
    simp only [opcode, operand, operandChars, List.tail_cons, Opcode.parse, hcount]
  | plain op => rfl
  | typed op tag =>
    simp only [opcode, operand, operandChars, List.tail_cons, Opcode.parse, parseTag_letter]
    rfl
  | named op x =>
    simp only [expressible] at h
    simp only [opcode, operand, operandChars, List.tail_cons, Opcode.parse, if_pos h,
      String.ofList_toList]

theorem Instr.ends_chars {i : Instr} (h : i.expressible = true) :
    ends (!isBlank ·) i.chars = true ∧ '\n' ∉ i.chars := by
  obtain ⟨c, cs, hname, -, hword⟩ := i.opcode.name_chars
  obtain ⟨hends, hn⟩ := ends_of_word (List.cons_ne_nil c cs) hword
  rw [chars, hname]
  rcases operand_of_expressible h with hop | ⟨hop, hends', hn'⟩
  · rw [hop, List.append_nil]
    exact ⟨hends, hn⟩
  · rw [hop, List.append_cons]
    refine ⟨ends_append ?_ hends', ?_⟩
    · rintro _ ⟨⟩
      simp [hword c List.mem_cons_self]
    · rw [List.mem_append, List.mem_append, not_or, not_or]
      exact ⟨⟨hn, by decide⟩, hn'⟩

/-- **The text of an expressible instruction is read back.** -/
theorem Instr.parse_chars {i : Instr} (h : i.expressible = true) : Instr.parse i.chars = .ok i := by
  obtain ⟨hends, -⟩ := ends_chars h
  obtain ⟨c, cs, hname, -, hword⟩ := i.opcode.name_chars
  rw [← hname] at hword
  have hne : i.chars.isEmpty = false := by simpa using (ends_iff.1 hends).1
  have hsplit : splitWord i.chars = (i.opcode.name.toList, i.operandChars) := by
    refine splitWord_of_word hword fun d hd => ?_
    rcases operand_of_expressible h with hop | ⟨hop, -⟩
    · rw [hop] at hd; cases hd
    · rw [hop] at hd; cases hd; decide
  have hoperand : trimStart i.operandChars = i.operand ∧ i.operand.contains '\n' = false := by
    rcases operand_of_expressible h with hop | ⟨hop, hends', hn⟩
    · simp [operand, hop]
    · exact ⟨by rw [hop, trimStart_blank (by decide) hends'], by simpa using hn⟩
  simp only [parse, trim_of_ends hends, hsplit, hoperand.1, hoperand.2, hne, Bool.or_false,
    Bool.false_eq_true, if_false, String.ofList_toList, i.opcode.ofName?_name]
  exact parse_operand h

theorem Code.skips_chars (i : Instr) : skips i.chars = false := by
  obtain ⟨c, cs, hname, hslash, -⟩ := i.opcode.name_chars
  rw [Instr.chars, hname]
  simp [skips, List.isPrefixOf, hslash.symm]

theorem Code.parseLines_chars : ∀ {code : List Instr} (k : Nat),
    (∀ i ∈ code, i.expressible = true) → parseLines k (code.map Instr.chars) = .ok code
  | [], _, _ => rfl
  | i :: code, k, h => by
    obtain ⟨hi, hcode⟩ := List.forall_mem_cons.1 h
    simp only [List.map_cons, parseLines, trim_of_ends (Instr.ends_chars hi).1, skips_chars,
      Bool.false_eq_true, if_false, Instr.parse_chars hi, parseLines_chars (k + 1) hcode]
    rfl

theorem Code.parse_text_of_expressible {code : List Instr}
    (h : ∀ i ∈ code, i.expressible = true) : Code.parse (Code.text code) = .ok code := by
  have hlines : Text.lines (chars code) = code.map Instr.chars := by
    refine lines_intercalate _ fun l hl => ?_
    obtain ⟨i, hi, rfl⟩ := List.mem_map.1 hl
    exact Instr.ends_chars (h i hi)
  rw [parse, text, String.toList_ofList, hlines]
  exact parseLines_chars 0 h

/-- **Code is read back from its text exactly if all its instructions are
    expressible.** -/
theorem Code.parse_text_iff {code : List Instr} :
    Code.parse (Code.text code) = .ok code ↔ ∀ i ∈ code, i.expressible = true := by
  constructor
  · intro h
    exact expressible_of_parseLines h
  · exact parse_text_of_expressible

/-- Line breaks may stand at the ends of a string constant, but not spaces, and not
    those of other constants. -/
example : (Instr.push .string "\r\n").expressible = true ∧
    (Instr.push .string " a").expressible = false ∧
    (Instr.push .int "1\n").expressible = false := by decide +kernel

/-! ## Writing what was read -/

/-- Reads the text of code and writes it again. -/
def Code.reformat (s : String) : Except Report String := (Code.parse s).map Code.text

theorem Code.parse_text_of_parse {s : String} {code : List Instr} (h : Code.parse s = .ok code) :
    Code.parse (Code.text code) = .ok code :=
  parse_text_of_expressible (expressible_of_parseLines h)

/-- **Code that was read survives being written again.**  So writing it again never
    changes what is read, and a second time not even the text.  A text that is refused
    has no other form, and the reason stays the same. -/
theorem Code.reformat_stable (s : String) :
    (∀ code, Code.parse s = .ok code → Code.parse (Code.text code) = .ok code) ∧
      (reformat s >>= Code.parse) = Code.parse s ∧ (reformat s >>= reformat) = reformat s := by
  refine ⟨fun code h => parse_text_of_parse h, ?_⟩
  cases h : Code.parse s with
  | error r =>
    have hs : reformat s = .error r := by rw [reformat, h]; rfl
    rw [hs]
    exact ⟨rfl, rfl⟩
  | ok code =>
    have hs : reformat s = .ok (Code.text code) := by rw [reformat, h]; rfl
    have hagain : reformat (Code.text code) = .ok (Code.text code) := by
      rw [reformat, parse_text_of_parse h]; rfl
    simp only [hs, bind, Except.bind]
    exact ⟨parse_text_of_parse h, hagain⟩

/-- Comments, blank lines, tabs, an unknown escape, a backslash at the end and a count
    with a sign and zeros: the text is written otherwise, and the code is the same. -/
theorem Code.reformat_stable_spelled :
    let s := "// note\r\n\n \tpush  S\t \\q\\n\\  \r\nprint +007"
    let code : List Instr := [.push .string "\\q\n\\", .print 7]
    Code.parse s = .ok code ∧ reformat s = .ok "push S \\\\q\\n\\\\\nprint 7" ∧
      Code.parse "push S \\\\q\\n\\\\\nprint 7" = .ok code := by
  intro s code
  have hs : Code.parse s = .ok code := by decide +kernel
  have ht : Code.text code = "push S \\\\q\\n\\\\\nprint 7" := by rfl
  exact ⟨hs, by rw [reformat, hs, ← ht]; rfl, ht ▸ (Code.reformat_stable s).1 code hs⟩

end StackLang
