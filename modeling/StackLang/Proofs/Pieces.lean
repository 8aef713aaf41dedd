/-
  Code that is read piece by piece.

  * `Code.content cs`: the lines of a text that hold instructions, without the blanks
    around them.  Nothing else of the text counts (`Code.parse_eq_content`), and the
    content of a text is that of its pieces, wherever it is cut at a line feed
    (`Code.content_join`);
  * `Code.Relaid cs ds`: the second text is the first one with one change of layout: a
    line that is skipped, another line end, blanks around a line;
  * `Code.parse_pieces`: texts with a line feed between them are read one after the
    other, and a change of layout changes nothing.
-/
import Mathlib.Logic.Relation
import StackLang.Code.Text
import StackLang.Proofs.Layout

namespace StackLang

namespace Text

/-- A text is a line, or a line in front of a shorter text. -/
@[elab_as_elim]
theorem line_induction {P : List Char → Prop} (last : ∀ cs, '\n' ∉ cs → P cs)
    (line : ∀ cs ds, '\n' ∉ cs → P ds → P (cs ++ '\n' :: ds)) (cs : List Char) : P cs := by
  induction h : cs.length using Nat.strongRecOn generalizing cs with
  | _ n ih =>
    by_cases hn : '\n' ∈ cs
    · obtain ⟨l, ds, rfl, hl⟩ := List.eq_append_cons_of_mem hn
      have hlt : ds.length < n := by
        rw [List.length_append, List.length_cons] at h
        omega
      exact line l ds hl (ih ds.length hlt ds rfl)
    · exact last cs hn

end Text

open Text

/-- The report of a fault in a piece of code that has a number of instructions in front
    of it. -/
def Report.shift (n : Nat) (r : Report) : Report :=
  { r with position := r.position.map fun q => { q with index := n + q.index } }

namespace Code

variable {c : Char} {cs ds : List Char}

/-! ## Content -/

/-- The lines with instructions among lines, without the blanks around them. -/
def filled (ls : List (List Char)) : List (List Char) := (ls.map trim).filter (!skips ·)

/-- The lines of a text that hold instructions, without the blanks around them. -/
def content (cs : List Char) : List (List Char) := filled (lines cs)

theorem filled_cons (l : List Char) (ls : List (List Char)) :
    filled (l :: ls) = filled [l] ++ filled ls := by
  rw [← List.singleton_append, filled, List.map_append, List.filter_append]
  rfl

theorem filled_congr {l l' : List Char} (h : trim l = trim l') : filled [l] = filled [l'] := by
  simp only [filled, List.map_singleton, h]

theorem filled_of_skips {l : List Char} (h : skips (trim l) = true) : filled [l] = [] := by
  simp [filled, h]

theorem filled_of_not_skips {l : List Char} (h : skips (trim l) = false) :
    filled [l] = [trim l] := by
  simp [filled, h]

/-- **Reading looks at the content only.** -/
theorem parseLines_filled (k : Nat) (ls : List (List Char)) :
    parseLines k (filled ls) = parseLines k ls := by
  induction ls generalizing k with
  | nil => rfl
  | cons l ls ih =>
    rw [filled_cons]
    cases hs : skips (trim l) with
    | true =>
      rw [filled_of_skips hs, List.nil_append, ih]
      simp [parseLines, hs]
    | false =>
      rw [filled_of_not_skips hs, List.singleton_append]
      simp only [parseLines, trim_trim, hs, ih]

theorem parse_eq_content (s : String) : Code.parse s = parseLines 0 (content s.toList) :=
  (parseLines_filled 0 _).symm

theorem content_of_not_mem (h : '\n' ∉ cs) : content cs = filled [cs] := by
  by_cases hne : cs = []
  · subst hne
    rfl
  · rw [content, lines_of_not_mem h hne]

theorem content_line (h : '\n' ∉ cs) (ds : List Char) :
    content (cs ++ '\n' :: ds) = content cs ++ content ds := by
  rw [content, lines_append h, filled_cons, filled_congr (trim_dropReturn cs),
    content_of_not_mem h]
  rfl

/-- **The content of a text is that of its pieces.** -/
theorem content_join (cs ds : List Char) :
    content (cs ++ '\n' :: ds) = content cs ++ content ds := by
  induction cs using line_induction with
  | last cs h => exact content_line h ds
  | line l cs h ih =>
    rw [List.append_assoc, List.cons_append, content_line h, content_line h, ih, List.append_assoc]

theorem content_cons_blank (hc : isBlank c = true) (cs : List Char) :
    content (c :: cs) = content cs := by
  by_cases hn : c = '\n'
  · rw [hn]
    exact content_join [] cs
  have hline {l : List Char} (h : '\n' ∉ l) : content (c :: l) = content l := by
    rw [content_of_not_mem h, content_of_not_mem (by simp [h, Ne.symm hn]),
      filled_congr (trim_cons_blank hc l)]
  induction cs using line_induction with
  | last l h => exact hline h
  | line l ds h _ => rw [← List.cons_append, content_join, hline h, ← content_join]

theorem content_concat_blank (hc : isBlank c = true) (cs : List Char) :
    content (cs ++ [c]) = content cs := by
  induction cs using line_induction with
  | line l ds h ih => rw [List.append_assoc, List.cons_append, content_join, ih, ← content_join]
  | last l h =>
    by_cases hn : c = '\n'
    · rw [hn, content_join]
      exact List.append_nil _
    · rw [content_of_not_mem h, content_of_not_mem (by simp [h, Ne.symm hn]),
        filled_congr (trim_concat_blank hc l)]

/-! ## Pieces -/

theorem parseLines_append (k : Nat) (ls ls' : List (List Char)) :
    parseLines k (ls ++ ls') =
      match parseLines k ls with
      | .error r => .error r
      | .ok code => (parseLines (k + code.length) ls').map (code ++ ·) := by
  induction ls generalizing k with
  | nil => cases h : parseLines k ls' <;> simp [parseLines, h, Except.map]
  | cons l ls ih =>
    simp only [List.cons_append, parseLines]
    cases skips (trim l) with
    | true => exact ih k
    | false =>
      cases Instr.parse (trim l) with
      | error f => rfl
      | ok i =>
        simp only [Bool.false_eq_true, if_false, ih]
        cases parseLines (k + 1) ls with
        | error r => rfl
        | ok code =>
          simp only [Except.map, List.length_cons, Nat.add_comm code.length 1, ← Nat.add_assoc]
          cases parseLines (k + 1 + code.length) ls' <;> rfl

/-- The index at which reading starts is added to that of a fault. -/
theorem parseLines_shift (n k : Nat) (ls : List (List Char)) :
    parseLines (n + k) ls = (parseLines k ls).mapError (Report.shift n) := by
  induction ls generalizing k with
  | nil => rfl
  | cons l ls ih =>
    simp only [parseLines]
    cases skips (trim l) with
    | true => exact ih k
    | false =>
      cases Instr.parse (trim l) with
      | error f => rfl
      | ok i =>
        simp only [Bool.false_eq_true, if_false, Nat.add_assoc, ih]
        cases parseLines (k + 1) ls <;> rfl

theorem located_of_parseLines {r : Report} : ∀ {ls : List (List Char)} {k : Nat},
    parseLines k ls = .error r → ∃ index text, r = .located index text r.fault
  | [], _, h => by cases h
  | l :: ls, k, h => by
    simp only [parseLines] at h
    split at h
    · exact located_of_parseLines h
    · cases hi : Instr.parse (trim l) with
      | error f =>
        rw [hi] at h
        cases h
        exact ⟨k, _, rfl⟩
      | ok i =>
        rw [hi] at h
        cases hrest : parseLines (k + 1) ls with
        | ok code => rw [hrest] at h; cases h
        | error r' =>
          rw [hrest] at h
          cases h
          exact located_of_parseLines hrest

/-! ## Layout -/

/-- What follows the text stands at the start of a line. -/
def StartsLine (cs : List Char) : Prop := cs = [] ∨ ∃ ds, cs = ds ++ ['\n']

/-- What stands in front of the text stands at the end of a line. -/
def EndsLine (cs : List Char) : Prop := cs = [] ∨ ∃ ds, cs = '\n' :: ds ∨ cs = '\r' :: '\n' :: ds

/-- The second text is the first one with one change of layout. -/
inductive Relaid : List Char → List Char → Prop
  /-- a blank line or a comment in front of a line -/
  | skippedBefore {a l b : List Char} : StartsLine a → '\n' ∉ l → skips (trim l) = true →
      Relaid (a ++ b) (a ++ l ++ '\n' :: b)
  /-- a blank line or a comment behind a line -/
  | skippedBehind {a l b : List Char} : EndsLine b → '\n' ∉ l → skips (trim l) = true →
      Relaid (a ++ b) (a ++ '\n' :: l ++ b)
  /-- another line end -/
  | returned {a b : List Char} : Relaid (a ++ '\n' :: b) (a ++ '\r' :: '\n' :: b)
  /-- blanks in front of a line -/
  | indented {a w b : List Char} : StartsLine a → (∀ c ∈ w, isBlank c = true) →
      Relaid (a ++ b) (a ++ w ++ b)
  /-- blanks behind a line -/
  | padded {a w b : List Char} : EndsLine b → (∀ c ∈ w, isBlank c = true) →
      Relaid (a ++ b) (a ++ w ++ b)

theorem StartsLine.content_append {a : List Char} (h : StartsLine a) (b : List Char) :
    content (a ++ b) = content a ++ content b := by
  rcases h with rfl | ⟨a, rfl⟩
  · rfl
  · rw [List.append_assoc, List.singleton_append, content_join, content_concat_blank (by decide)]

theorem EndsLine.content_append {b : List Char} (h : EndsLine b) (a : List Char) :
    content (a ++ b) = content a ++ content b := by
  have hreturn : isBlank '\r' = true := by decide
  rcases h with rfl | ⟨b, rfl | rfl⟩
  · rw [List.append_nil]
    exact (List.append_nil _).symm
  · rw [content_join, content_cons_blank (by decide)]
  · rw [List.append_cons, content_join, content_concat_blank hreturn, content_cons_blank hreturn,
      content_cons_blank (by decide)]

/-- **A change of layout keeps the content.** -/
theorem Relaid.content (h : Relaid cs ds) : content cs = content ds := by
  cases h with
  | @skippedBefore a l b ha hl hs =>
    rw [ha.content_append, List.append_assoc, ha.content_append, content_join,
      content_of_not_mem hl, filled_of_skips hs, List.nil_append]
  | @skippedBehind a l b hb hl hs =>
    rw [hb.content_append, hb.content_append, content_join, content_of_not_mem hl,
      filled_of_skips hs, List.append_nil]
  | @returned a b =>
    rw [List.append_cons a '\r', content_join, content_join, content_concat_blank (by decide)]
  | @indented a w b ha hw =>
    rw [List.append_assoc, ha.content_append, ha.content_append,
      eq_of_blanks_append content_cons_blank hw]
  | @padded a w b hb hw =>
    rw [hb.content_append, hb.content_append, eq_of_append_blanks content_concat_blank hw]

theorem parse_congr {s t : String} (h : content s.toList = content t.toList) :
    Code.parse s = Code.parse t := by
  rw [parse_eq_content, parse_eq_content, h]

/-- **Code is read piece by piece.**  Two texts with a line feed between them are read one
    after the other: a fault in the first one is the fault of both, and one in the second
    one is reported behind the instructions of the first.  Every fault has such a place.  So
    it makes no difference to the code, to a fault or to its place if blank lines or comments
    are inserted or deleted, lines end otherwise, or blanks stand around lines. -/
theorem parse_pieces :
    (∀ a b : String, Code.parse (a ++ "\n" ++ b) =
      match Code.parse a, Code.parse b with
      | .error r, _ => .error r
      | .ok code, .ok code' => .ok (code ++ code')
      | .ok code, .error r => .error (r.shift code.length)) ∧
    (∀ (s : String) (r : Report), Code.parse s = .error r →
      ∃ index text, r = .located index text r.fault) ∧
    ∀ s t : String, Relation.EqvGen Relaid s.toList t.toList → Code.parse s = Code.parse t := by
  refine ⟨fun a b => ?_, fun s r h => located_of_parseLines h, fun s t h => ?_⟩
  · have hjoin : content (a ++ "\n" ++ b).toList = content a.toList ++ content b.toList := by
      simpa using content_join a.toList b.toList
    rw [parse_eq_content, parse_eq_content, parse_eq_content, hjoin, parseLines_append]
    cases parseLines 0 (content a.toList) with
    | error r => rfl
    | ok code =>
      dsimp only
      rw [Nat.add_comm 0, parseLines_shift]
      cases parseLines 0 (content b.toList) <;> rfl
  · refine parse_congr ?_
    generalize s.toList = cs at h
    generalize t.toList = ds at h
    induction h with
    | rel _ _ h => exact h.content
    | refl _ => rfl
    | symm _ _ _ ih => exact ih.symm
    | trans _ _ _ _ _ ih₁ ih₂ => exact ih₁.trans ih₂

/-- A fault behind a piece of two instructions, and the same text with a comment, another
    line end and other blanks. -/
theorem parse_pieces_misspelled :
    Code.parse "dup\npop" = .ok [.plain .dup, .plain .pop] ∧
      Code.parse "not\nno" = .error (.located 1 "no" (.unknownOpcode "no")) ∧
      Code.parse ("dup\npop" ++ "\n" ++ "not\nno") =
        .error (.located 3 "no" (.unknownOpcode "no")) ∧
      Relation.EqvGen Relaid "not\nno".toList "//\nnot\r\nno\t".toList ∧
      Code.parse "//\nnot\r\nno\t" = .error (.located 1 "no" (.unknownOpcode "no")) := by
  have ha : Code.parse "dup\npop" = .ok [.plain .dup, .plain .pop] := by decide +kernel
  have hb : Code.parse "not\nno" = .error (.located 1 "no" (.unknownOpcode "no")) := by
    decide +kernel
  have hlaid : Relation.EqvGen Relaid "not\nno".toList "//\nnot\r\nno\t".toList := by
    have hs : "not\nno".toList = ['n', 'o', 't', '\n', 'n', 'o'] := by decide +kernel
    have ht : "//\nnot\r\nno\t".toList =
        ['/', '/', '\n', 'n', 'o', 't', '\r', '\n', 'n', 'o', '\t'] := by decide +kernel
    rw [hs, ht]
    refine .trans _ ['/', '/', '\n', 'n', 'o', 't', '\n', 'n', 'o'] _ (.rel _ _ ?_) (.trans _
      ['/', '/', '\n', 'n', 'o', 't', '\r', '\n', 'n', 'o'] _ (.rel _ _ ?_) (.rel _ _ ?_))
    · exact .skippedBefore (a := []) (l := ['/', '/']) (.inl rfl) (by decide) (by decide)
    · exact .returned (a := ['/', '/', '\n', 'n', 'o', 't']) (b := ['n', 'o'])
    · exact .padded (a := ['/', '/', '\n', 'n', 'o', 't', '\r', '\n', 'n', 'o']) (w := ['\t'])
        (.inl rfl) (List.forall_mem_singleton.2 (by decide))
  obtain ⟨hjoin, -, hrelaid⟩ := parse_pieces
  refine ⟨ha, hb, ?_, hlaid, hrelaid _ _ hlaid ▸ hb⟩
  rw [hjoin, ha, hb]
  rfl

end Code

end StackLang
