/-
  Blanks, words and lines.

  * `Text.ends p cs`: the text is not empty, and its first and last characters have
    the property `p`.  Trimming gives such a text, if anything is left
    (`Text.ends_trim`), and leaves it alone (`Text.trim_of_ends`);
  * `Text.lines_append`: the line in front of a line feed is the first one.  Lines that
    are joined by line feeds are found again (`Text.lines_intercalate`);
  * escaped text has no line break (`Text.not_mem_escape`), and what stands at the ends
    of a text is known from what stands at those of its escaped form, and the other
    way round (`Text.ends_unescape`, `Text.ends_escape`).
-/
import Mathlib.Data.List.TakeWhile
import StackLang.Text.Blank
import StackLang.Text.Escape
import StackLang.Text.Lines

namespace StackLang.Text

/-- The text is not empty, and its first and last characters have a property. -/
def ends (p : Char → Bool) (cs : List Char) : Bool := cs.head?.any p && cs.getLast?.any p

variable {p : Char → Bool} {c : Char} {cs ds : List Char}

theorem ends_iff : ends p cs = true ↔
    cs ≠ [] ∧ (∀ c, cs.head? = some c → p c = true) ∧ ∀ c, cs.getLast? = some c → p c = true := by
  cases cs with
  | nil => simp [ends]
  | cons c cs => simp [ends, List.getLast?_cons]

theorem getLast?_of_suffix (h : ds <:+ cs) (hne : ds ≠ []) : ds.getLast? = cs.getLast? := by
  obtain ⟨l, rfl⟩ := h
  obtain ⟨d, hd⟩ := Option.ne_none_iff_exists'.1 (mt List.getLast?_eq_none_iff.1 hne)
  rw [List.getLast?_append, hd, Option.some_or]

theorem head?_of_start (h : ds <+: cs) (hne : ds ≠ []) : ds.head? = cs.head? := by
  obtain ⟨l, rfl⟩ := h
  cases ds with
  | nil => exact absurd rfl hne
  | cons d ds => rfl

theorem ends_append (hc : ∀ c, cs.head? = some c → p c = true) (h : ends p ds = true) :
    ends p (cs ++ ds) = true := by
  obtain ⟨hne, hhead, hlast⟩ := ends_iff.1 h
  refine ends_iff.2 ⟨by simp [hne], ?_, ?_⟩
  · cases cs with
    | nil => exact hhead
    | cons c cs => exact hc
  · rwa [← getLast?_of_suffix (List.suffix_append cs ds) hne]

/-! ## Trimming -/

theorem trimEnd_eq (cs : List Char) : trimEnd cs = (trimStart cs.reverse).reverse := rfl

theorem trimStart_suffix (cs : List Char) : trimStart cs <:+ cs := List.dropWhile_suffix isBlank

theorem head?_trimStart (h : (trimStart cs).head? = some c) : isBlank c = false := by
  have hnot := List.head?_dropWhile_not isBlank cs
  rw [trimStart] at h
  rwa [h] at hnot

theorem getLast?_trimEnd (h : (trimEnd cs).getLast? = some c) : isBlank c = false := by
  rw [trimEnd_eq, List.getLast?_reverse] at h
  exact head?_trimStart h

theorem trimStart_of_head (h : ∀ c, cs.head? = some c → isBlank c = false) : trimStart cs = cs := by
  cases cs with
  | nil => rfl
  | cons c cs => exact List.dropWhile_cons_of_neg (by simp [h c rfl])

theorem trimEnd_of_last (h : ∀ c, cs.getLast? = some c → isBlank c = false) : trimEnd cs = cs := by
  rw [trimEnd_eq, trimStart_of_head (by simpa using h), List.reverse_reverse]

theorem trim_of_ends (h : ends (!isBlank ·) cs = true) : trim cs = cs := by
  obtain ⟨-, hhead, hlast⟩ := ends_iff.1 h
  simp only [Bool.not_eq_true'] at hhead hlast
  rw [trim, trimStart_of_head hhead, trimEnd_of_last hlast]

theorem trimStart_blank (hc : isBlank c = true) (h : ends (!isBlank ·) cs = true) :
    trimStart (c :: cs) = cs := by
  rw [trimStart, List.dropWhile_cons_of_pos hc]
  exact trimStart_of_head (by simpa using (ends_iff.1 h).2.1)

/-- A text that ends with no blank starts with none behind its leading blanks. -/
theorem ends_trimStart (hne : cs ≠ []) (h : ∀ c, cs.getLast? = some c → isBlank c = false) :
    ends (!isBlank ·) (trimStart cs) = true := by
  have hleft : trimStart cs ≠ [] := by
    intro hnil
    obtain ⟨d, hd⟩ := Option.ne_none_iff_exists'.1 (mt List.getLast?_eq_none_iff.1 hne)
    have hblank := List.dropWhile_eq_nil_iff.1 hnil d (List.mem_of_getLast? hd)
    rw [h d hd] at hblank
    cases hblank
  refine ends_iff.2 ⟨hleft, fun c hc => ?_, fun c hc => ?_⟩
  · simp [head?_trimStart hc]
  · rw [getLast?_of_suffix (trimStart_suffix cs) hleft] at hc
    simp [h c hc]

theorem ends_trim (h : trim cs ≠ []) : ends (!isBlank ·) (trim cs) = true := by
  have hstart : trim cs <+: trimStart cs := by
    rw [trim, trimEnd_eq, ← List.reverse_suffix, List.reverse_reverse]
    exact trimStart_suffix _
  refine ends_iff.2 ⟨h, fun c hc => ?_, fun c hc => ?_⟩
  · rw [head?_of_start hstart h] at hc
    simp [head?_trimStart hc]
  · simp [getLast?_trimEnd hc]

theorem trim_cons_blank (hc : isBlank c = true) (cs : List Char) : trim (c :: cs) = trim cs := by
  rw [trim, trimStart, List.dropWhile_cons_of_pos hc]
  rfl

theorem trimEnd_concat_blank (hc : isBlank c = true) (cs : List Char) :
    trimEnd (cs ++ [c]) = trimEnd cs := by
  rw [trimEnd, List.reverse_append, List.reverse_singleton, List.singleton_append,
    List.dropWhile_cons_of_pos hc]
  rfl

theorem trim_concat_blank (hc : isBlank c = true) (cs : List Char) :
    trim (cs ++ [c]) = trim cs := by
  rw [trim, trim, trimStart, trimStart, List.dropWhile_append]
  split
  · next hnil =>
    -- nothing is left of a text of blanks
    rw [List.isEmpty_iff.1 hnil, List.dropWhile_cons_of_pos hc]
    rfl
  · exact trimEnd_concat_blank hc _

/-- What a blank in front of a text does not change, blanks in front do not change. -/
theorem eq_of_blanks_append {α : Type} {f : List Char → α}
    (hf : ∀ {c}, isBlank c = true → ∀ cs, f (c :: cs) = f cs) {w : List Char}
    (hw : ∀ c ∈ w, isBlank c = true) (cs : List Char) : f (w ++ cs) = f cs := by
  induction w with
  | nil => rfl
  | cons c w ih =>
    rw [List.forall_mem_cons] at hw
    rw [List.cons_append, hf hw.1, ih hw.2]

/-- What a blank behind a text does not change, blanks behind it do not change. -/
theorem eq_of_append_blanks {α : Type} {f : List Char → α}
    (hf : ∀ {c}, isBlank c = true → ∀ cs, f (cs ++ [c]) = f cs) {w : List Char}
    (hw : ∀ c ∈ w, isBlank c = true) (cs : List Char) : f (cs ++ w) = f cs := by
  induction w generalizing cs with
  | nil => rw [List.append_nil]
  | cons c w ih =>
    rw [List.forall_mem_cons] at hw
    rw [List.append_cons, ih hw.2, hf hw.1]

theorem trim_trim (cs : List Char) : trim (trim cs) = trim cs := by
  by_cases h : trim cs = []
  · rw [h, trim_nil]
  · exact trim_of_ends (ends_trim h)

/-! ## Words -/

theorem ends_of_word (hne : cs ≠ []) (hw : ∀ c ∈ cs, isBlank c = false) :
    ends (!isBlank ·) cs = true ∧ '\n' ∉ cs := by
  refine ⟨ends_iff.2 ⟨hne, fun c hc => ?_, fun c hc => ?_⟩, fun hn => ?_⟩
  · simp [hw c (List.mem_of_head? hc)]
  · simp [hw c (List.mem_of_getLast? hc)]
  · cases hw _ hn

/-- A word in front of a blank, or alone. -/
theorem splitWord_of_word (hw : ∀ c ∈ cs, isBlank c = false)
    (hd : ∀ c, ds.head? = some c → isBlank c = true) : splitWord (cs ++ ds) = (cs, ds) := by
  have hw' : ∀ c ∈ cs, (!isBlank c) = true := fun c hc => by simp [hw c hc]
  have hstop : ds.takeWhile (!isBlank ·) = [] ∧ ds.dropWhile (!isBlank ·) = ds := by
    cases ds with
    | nil => exact ⟨rfl, rfl⟩
    | cons d ds => simp [hd d rfl]
  rw [splitWord, List.takeWhile_append_of_pos hw', List.dropWhile_append_of_pos hw', hstop.1,
    hstop.2, List.append_nil]

/-! ## Lines -/

theorem linesFrom_append (line : List Char) (h : '\n' ∉ cs) :
    linesFrom line (cs ++ ds) = linesFrom (cs.reverse ++ line) ds := by
  induction cs generalizing line with
  | nil => rfl
  | cons c cs ih =>
    rw [List.mem_cons, not_or] at h
    rw [List.cons_append, linesFrom, ih _ h.2, List.reverse_cons, List.append_assoc]
    · rfl
    · rintro rfl
      exact h.1 rfl

theorem lines_append (h : '\n' ∉ cs) : lines (cs ++ '\n' :: ds) = dropReturn cs :: lines ds := by
  rw [lines, linesFrom_append [] h, List.append_nil, linesFrom, List.reverse_reverse, lines]

theorem lines_of_not_mem (h : '\n' ∉ cs) (hne : cs ≠ []) : lines cs = [cs] := by
  have hlines : linesFrom [] (cs ++ []) = linesFrom (cs.reverse ++ []) [] := linesFrom_append [] h
  rw [List.append_nil, List.append_nil] at hlines
  rw [lines, hlines, linesFrom, List.reverse_reverse, if_neg (by simpa using hne)]

theorem dropReturn_of_last (h : ∀ c, cs.getLast? = some c → isBlank c = false) :
    dropReturn cs = cs := by
  refine if_neg fun hr => ?_
  cases h '\r' hr

/-- The carriage return in front of a line feed is a blank. -/
theorem trim_dropReturn (cs : List Char) : trim (dropReturn cs) = trim cs := by
  unfold dropReturn
  split
  · next hr =>
    obtain ⟨ds, rfl⟩ := List.getLast?_eq_some_iff.1 hr
    rw [List.dropLast_concat, trim_concat_blank (by decide)]
  · rfl

/-- **Lines that are joined by line feeds are found again.** -/
theorem lines_intercalate : ∀ ls : List (List Char),
    (∀ l ∈ ls, ends (!isBlank ·) l = true ∧ '\n' ∉ l) → lines (['\n'].intercalate ls) = ls
  | [], _ => rfl
  | [l], h => by
    obtain ⟨hl, hn⟩ := h l (List.mem_singleton_self l)
    rw [List.intercalate_singleton]
    exact lines_of_not_mem hn (ends_iff.1 hl).1
  | l :: l' :: ls, h => by
    obtain ⟨hl, hn⟩ := h l List.mem_cons_self
    have hlast : ∀ c, l.getLast? = some c → isBlank c = false := by simpa using (ends_iff.1 hl).2.2
    rw [List.intercalate_cons_cons, List.append_assoc, List.singleton_append, lines_append hn,
      dropReturn_of_last hlast, lines_intercalate (l' :: ls) fun k hk => h k (List.mem_cons_of_mem _ hk)]

/-! ## Escaping -/

/-- The character is no blank, or a line break, which would be escaped. -/
def isMark (c : Char) : Bool := !isBlank c || c = '\n' || c = '\r'

/-- A character is escaped to a word, or stands for itself. -/
theorem escapeChar_cases (c : Char) :
    (∃ d, isBlank d = false ∧ escapeChar c = ['\\', d]) ∨
      c ≠ '\n' ∧ c ≠ '\r' ∧ escapeChar c = [c] := by
  by_cases hb : c = '\\'
  · exact .inl ⟨'\\', by decide, by rw [hb]; rfl⟩
  by_cases hn : c = '\n'
  · exact .inl ⟨'n', by decide, by rw [hn]; rfl⟩
  by_cases hr : c = '\r'
  · exact .inl ⟨'r', by decide, by rw [hr]; rfl⟩
  exact .inr ⟨hn, hr, by simp [escapeChar]⟩

theorem escaped_word {e : Char} (he : isBlank e = false) : ∀ d ∈ ['\\', e], isBlank d = false :=
  List.forall_mem_cons.2 ⟨by decide, List.forall_mem_singleton.2 he⟩

theorem mem_escapeChar {d : Char} (h : d ∈ escapeChar c) : d ≠ '\n' ∧ d ≠ '\r' := by
  rcases escapeChar_cases c with ⟨e, he, hc⟩ | ⟨hn, hr, hc⟩
  · have hd : isBlank d = false := escaped_word he d (hc ▸ h)
    constructor <;> (rintro rfl; cases hd)
  · rw [hc, List.mem_singleton] at h
    exact h ▸ ⟨hn, hr⟩

theorem not_mem_escape (cs : List Char) : '\n' ∉ escape cs ∧ '\r' ∉ escape cs := by
  constructor
  · intro h
    obtain ⟨c, -, hc⟩ := List.mem_flatMap.1 h
    exact (mem_escapeChar hc).1 rfl
  · intro h
    obtain ⟨c, -, hc⟩ := List.mem_flatMap.1 h
    exact (mem_escapeChar hc).2 rfl

theorem ends_escapeChar (h : isMark c = true) : ends (!isBlank ·) (escapeChar c) = true := by
  rcases escapeChar_cases c with ⟨e, he, hc⟩ | ⟨hn, hr, hc⟩
  · rw [hc]
    exact (ends_of_word (List.cons_ne_nil _ _) (escaped_word he)).1
  · have hblank : isBlank c = false := by simpa [isMark, hn, hr] using h
    simp [ends, hc, hblank]

/-- Escaped text starts and ends with no blank, if the text does so but for line
    breaks. -/
theorem ends_escape (h : ends isMark cs = true) : ends (!isBlank ·) (escape cs) = true := by
  obtain ⟨hne, hhead, hlast⟩ := ends_iff.1 h
  obtain ⟨ds, d, rfl⟩ : ∃ ds d, cs = ds ++ [d] := ⟨_, _, (List.dropLast_concat_getLast hne).symm⟩
  have hd := ends_escapeChar (hlast d (by simp))
  rw [escape, List.flatMap_append, List.flatMap_singleton]
  refine ends_append (fun e he => ?_) hd
  cases ds with
  | nil => cases he
  | cons c ds =>
    obtain ⟨hcne, hc, -⟩ := ends_iff.1 (ends_escapeChar (hhead c rfl))
    rw [List.flatMap_cons, ← head?_of_start (List.prefix_append _ _) hcne] at he
    exact hc e he

/-- The first character of an escaped text stands for itself or for a line break. -/
theorem unescape_cons_cases (c : Char) (cs : List Char) :
    ∃ d ds, unescape (c :: cs) = d :: ds ∧ (d = c ∨ d = '\n' ∨ d = '\r') := by
  rw [unescape.eq_def]
  split <;> simp_all

theorem getLast?_cons_cases {d : Char} (h : (c :: cs).getLast? = some d) :
    cs = [] ∧ d = c ∨ cs.getLast? = some d := by
  cases cs with
  | nil => exact .inl ⟨rfl, (Option.some.inj h).symm⟩
  | cons e cs => exact .inr (by rwa [List.getLast?_cons_cons] at h)

/-- The last character of an escaped text stands for itself, unless it is part of an
    escape. -/
theorem getLast?_unescape : (∀ c, cs.getLast? = some c → isBlank c = false) →
    ∀ c, (unescape cs).getLast? = some c → isMark c = true := by
  have hrest {c : Char} {cs : List Char} (h : ∀ d, (c :: cs).getLast? = some d → isBlank d = false) :
      ∀ d, cs.getLast? = some d → isBlank d = false := by
    intro d hd
    cases cs with
    | nil => cases hd
    | cons e cs => exact h d (by rwa [List.getLast?_cons_cons])
  fun_induction unescape cs with
  | case1 cs ih | case2 cs ih | case3 cs ih =>
    intro h d hd
    rcases getLast?_cons_cases hd with ⟨-, rfl⟩ | hd
    · decide
    · exact ih (hrest (hrest h)) d hd
  | case4 c cs _ _ _ ih =>
    intro h d hd
    rcases getLast?_cons_cases hd with ⟨hnil, rfl⟩ | hd
    · cases cs with
      | nil => simp [isMark, h d rfl]
      | cons e cs =>
        obtain ⟨_, _, hcons, -⟩ := unescape_cons_cases e cs
        rw [hcons] at hnil
        cases hnil
    · exact ih (hrest h) d hd
  | case5 => exact fun _ => nofun

/-- A text starts and ends with no blank but line breaks, if its escaped form starts and
    ends with no blank. -/
theorem ends_unescape (h : ends (!isBlank ·) cs = true) : ends isMark (unescape cs) = true := by
  obtain ⟨hne, hhead, hlast⟩ := ends_iff.1 h
  simp only [Bool.not_eq_true'] at hhead hlast
  cases cs with
  | nil => exact absurd rfl hne
  | cons c cs =>
    have hunescape := getLast?_unescape hlast
    obtain ⟨d, ds, hd, hcases⟩ := unescape_cons_cases c cs
    rw [hd] at hunescape ⊢
    refine ends_iff.2 ⟨List.cons_ne_nil d ds, ?_, hunescape⟩
    rintro _ ⟨⟩
    rcases hcases with rfl | rfl | rfl
    · simp [isMark, hhead d rfl]
    · decide
    · decide

end StackLang.Text
