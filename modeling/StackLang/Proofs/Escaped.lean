/-
  The texts that escaping writes.

  * `Text.startsEscape cs i`: the backslash at position `i` starts an escape, if the text is
    read from left to right;
  * `Text.KnownEscapes cs`: behind each of them there is `n`, `r` or a backslash.  This is
    checked character by character and escape by escape (`Text.knownEscapes_cons_iff`,
    `Text.knownEscapes_escape_iff`);
  * escaping writes known escapes only (`Text.knownEscapes_escape`), and a text of one line
    with known escapes only is written for what it is read as
    (`Text.KnownEscapes.escape_unescape`);
  * `Text.escape_exact`: escaping is undone by reading, and reading by escaping exactly on
    these texts.
-/
import StackLang.Proofs.Layout

namespace StackLang.Text

variable {c d : Char} {cs : List Char} {k : Nat}

/-! ## Starts of escapes -/

/-- There is a backslash at the position, and it is not the second character of an escape
    that starts right before it. -/
def startsEscape (cs : List Char) : Nat → Bool
  | 0 => cs[0]? == some '\\'
  | i + 1 => cs[i + 1]? == some '\\' && !startsEscape cs i

theorem startsEscape_zero : startsEscape (c :: cs) 0 = (c == '\\') := by
  simp [startsEscape]

/-- Behind a position where no escape starts, reading begins anew. -/
theorem startsEscape_drop (h : startsEscape cs k = false) (i : Nat) :
    startsEscape cs (k + 1 + i) = startsEscape (cs.drop (k + 1)) i := by
  induction i with
  | zero => simp [startsEscape, h]
  | succ i ih =>
    have hget : (cs.drop (k + 1))[i + 1]? = cs[k + 1 + (i + 1)]? := List.getElem?_drop
    rw [← Nat.add_assoc] at hget ⊢
    rw [startsEscape, startsEscape, hget, ih]

theorem startsEscape_cons (hc : c ≠ '\\') (i : Nat) :
    startsEscape (c :: cs) (i + 1) = startsEscape cs i := by
  have hzero : startsEscape (c :: cs) 0 = false := by simp [startsEscape_zero, hc]
  rw [Nat.add_comm]
  simpa using startsEscape_drop hzero i

/-- The second character of an escape starts none, also if it is a backslash. -/
theorem startsEscape_second : startsEscape ('\\' :: d :: cs) 1 = false := by
  simp [startsEscape]

theorem startsEscape_escape (i : Nat) :
    startsEscape ('\\' :: d :: cs) (i + 2) = startsEscape cs i := by
  have hsecond : startsEscape ('\\' :: d :: cs) 1 = false := startsEscape_second
  rw [Nat.add_comm]
  simpa using startsEscape_drop hsecond i

-- of three backslashes in a row, the first and the last start an escape
example : (List.range 6).filter (startsEscape ['\\', '\\', '\\', 'n', 'a', '\\']) = [0, 2, 5] := by
  decide

/-! ## Known escapes -/

/-- Behind each backslash that starts an escape there is `n`, `r` or a backslash. -/
def KnownEscapes (cs : List Char) : Prop :=
  ∀ i, startsEscape cs i = true → ∃ d ∈ ['n', 'r', '\\'], cs[i + 1]? = some d

theorem knownEscapes_nil : KnownEscapes [] := by
  intro i hi
  cases i <;> simp [startsEscape] at hi

theorem knownEscapes_cons_iff (hc : c ≠ '\\') : KnownEscapes (c :: cs) ↔ KnownEscapes cs := by
  constructor
  · intro h i hi
    exact h (i + 1) (by rwa [startsEscape_cons hc])
  · intro h i hi
    cases i with
    | zero => simp [startsEscape_zero, hc] at hi
    | succ i => exact h i (by rwa [startsEscape_cons hc] at hi)

theorem knownEscapes_escape_iff :
    KnownEscapes ('\\' :: d :: cs) ↔ (d = 'n' ∨ d = 'r' ∨ d = '\\') ∧ KnownEscapes cs := by
  constructor
  · intro h
    obtain ⟨e, he, hd⟩ := h 0 rfl
    obtain rfl : d = e := Option.some.inj hd
    refine ⟨by simpa using he, fun i hi => ?_⟩
    exact h (i + 2) (by rwa [startsEscape_escape])
  · rintro ⟨hd, h⟩ (_ | _ | i) hi
    · exact ⟨d, by simpa using hd, rfl⟩
    · rw [startsEscape_second] at hi
      cases hi
    · exact h i (by rwa [startsEscape_escape] at hi)

/-- A backslash at the end starts an escape that has no second character. -/
theorem not_knownEscapes_backslash : ¬ KnownEscapes ['\\'] := by
  intro h
  obtain ⟨d, -, hd⟩ := h 0 rfl
  cases hd

/-! ## Writing and reading -/

theorem KnownEscapes.escapeChar_append (h : KnownEscapes cs) (c : Char) :
    KnownEscapes (escapeChar c ++ cs) := by
  unfold escapeChar
  split
  · exact knownEscapes_escape_iff.2 ⟨.inr (.inr rfl), h⟩
  · exact knownEscapes_escape_iff.2 ⟨.inl rfl, h⟩
  · exact knownEscapes_escape_iff.2 ⟨.inr (.inl rfl), h⟩
  · next hc _ _ => exact (knownEscapes_cons_iff hc).2 h

/-- Escaping writes known escapes only. -/
theorem knownEscapes_escape (cs : List Char) : KnownEscapes (escape cs) := by
  induction cs with
  | nil => exact knownEscapes_nil
  | cons c cs ih => exact ih.escapeChar_append c

/-- **A text of one line with known escapes only is written for what it is read as.** -/
theorem KnownEscapes.escape_unescape (h : KnownEscapes cs) (hfeed : '\n' ∉ cs)
    (hreturn : '\r' ∉ cs) : escape (unescape cs) = cs := by
  fun_induction unescape cs with
  | case1 cs ih | case2 cs ih | case3 cs ih =>
    simp only [List.mem_cons, not_or] at hfeed hreturn
    rw [escape_cons, ih (knownEscapes_escape_iff.1 h).2 hfeed.2.2 hreturn.2.2]
    rfl
  | case4 c cs hn hr hb ih =>
    -- a backslash would start an escape that is unknown or has no second character
    have hc : c ≠ '\\' := by
      rintro rfl
      cases cs with
      | nil => exact not_knownEscapes_backslash h
      | cons d cs =>
        rcases (knownEscapes_escape_iff.1 h).1 with rfl | rfl | rfl
        · exact hn cs rfl rfl
        · exact hr cs rfl rfl
        · exact hb cs rfl rfl
    rw [List.mem_cons, not_or] at hfeed hreturn
    have hcn : c ≠ '\n' := Ne.symm hfeed.1
    have hcr : c ≠ '\r' := Ne.symm hreturn.1
    have hself : escapeChar c = [c] := by simp [escapeChar]
    rw [escape_cons, hself, ih ((knownEscapes_cons_iff hc).1 h) hfeed.2 hreturn.2]
    rfl
  | case5 => rfl

/-- **Escaping is undone exactly.**  Escaped text has no line break and is read back.  A text
    is written as it was read exactly if it has no line break and, read from left to right,
    behind each backslash that starts an escape there is `n`, `r` or a backslash. -/
theorem escape_exact :
    (∀ cs, '\n' ∉ escape cs ∧ '\r' ∉ escape cs ∧ unescape (escape cs) = cs) ∧
      ∀ cs, escape (unescape cs) = cs ↔ '\n' ∉ cs ∧ '\r' ∉ cs ∧ KnownEscapes cs := by
  refine ⟨fun cs => ?_, fun cs => ⟨fun h => ?_, fun ⟨hn, hr, h⟩ => h.escape_unescape hn hr⟩⟩
  · obtain ⟨hn, hr⟩ := not_mem_escape cs
    exact ⟨hn, hr, unescape_escape cs⟩
  · -- the text is one that escaping writes
    rw [← h]
    obtain ⟨hn, hr⟩ := not_mem_escape (unescape cs)
    exact ⟨hn, hr, knownEscapes_escape (unescape cs)⟩

end StackLang.Text
