/-
  Which code links, and where its labels lead.

  * `Code.defs` and `Code.jumps` are the labels that code defines and those that
    it jumps to;
  * code links exactly if it defines no label twice and jumps to no other labels
    (`Code.link_isOk_iff`);
  * in a linked program every label leads to its definition (`Linked.Exact`).
-/
import StackLang.Machine.Link

namespace StackLang

namespace Code

/-- The labels that code defines, in order. -/
def defs (code : List Instr) : List String := code.filterMap Instr.label?

/-- The labels that code jumps to, in order. -/
def jumps (code : List Instr) : List String := code.filterMap Instr.target?

@[simp] theorem defs_nil : defs [] = [] := rfl

@[simp] theorem defs_cons (i : Instr) (c : List Instr) :
    defs (i :: c) = i.label?.toList ++ defs c := by
  cases h : i.label? <;> simp [defs, h]

@[simp] theorem defs_append (c c' : List Instr) : defs (c ++ c') = defs c ++ defs c' := by
  simp [defs]

@[simp] theorem jumps_nil : jumps [] = [] := rfl

@[simp] theorem jumps_cons (i : Instr) (c : List Instr) :
    jumps (i :: c) = i.target?.toList ++ jumps c := by
  cases h : i.target? <;> simp [jumps, h]

@[simp] theorem jumps_append (c c' : List Instr) : jumps (c ++ c') = jumps c ++ jumps c' := by
  simp [jumps]

theorem label?_eq_some {i : Instr} {l : String} : i.label? = some l ↔ i = .named .label l := by
  rcases i with _ | _ | _ | _ | ⟨_ | _ | _ | _ | _, x⟩ <;> simp [Instr.label?]

/-- Code defines the labels that stand in it. -/
theorem mem_defs_iff {code : List Instr} {l : String} :
    l ∈ defs code ↔ .named .label l ∈ code := by
  simp [defs, label?_eq_some]

/-- The instruction that stands at an index, and what follows it. -/
theorem getElem?_of_drop {code : List Instr} {k : Nat} {i : Instr} {rest : List Instr}
    (h : code.drop k = i :: rest) : code[k]? = some i ∧ code.drop (k + 1) = rest := by
  constructor
  · rw [← List.head?_drop, h, List.head?_cons]
  · rw [← List.tail_drop, h, List.tail_cons]

/-! ## The table of labels -/

/-- The table of labels is built exactly if no label is defined twice. -/
theorem defineLabels_isOk_iff {table : List (String × Nat)} {index : Nat} {code : List Instr} :
    (∃ table', defineLabels table index code = .ok table') ↔
      (defs code).Nodup ∧ ∀ l ∈ defs code, table.lookup l = none := by
  induction code generalizing table index with
  | nil => simp [defineLabels]
  | cons i code ih =>
    cases hi : i.label? with
    | none => simp [defineLabels, hi, ih]
    | some l =>
      simp only [defineLabels, hi, defs_cons, Option.toList_some, List.singleton_append,
        List.nodup_cons, List.forall_mem_cons]
      cases hl : table.lookup l with
      | some j => simp
      | none =>
        have hlookup : ∀ l', List.lookup l' ((l, index) :: table) = none ↔
            l' ≠ l ∧ table.lookup l' = none := by
          intro l'
          by_cases h : l' = l
          · simp [h]
          · simp [List.lookup_cons, beq_false_of_ne h, h]
        simp only [Option.isSome_none, Bool.false_eq_true, if_false, ih, hlookup]
        constructor
        · rintro ⟨hn, h⟩
          exact ⟨⟨fun hm => (h l hm).1 rfl, hn⟩, trivial, fun l' hl' => (h l' hl').2⟩
        · rintro ⟨⟨hm, hn⟩, -, h⟩
          exact ⟨hn, fun l' hl' => ⟨fun he => hm (he ▸ hl'), h l' hl'⟩⟩

theorem lookup_of_defineLabels {table table' : List (String × Nat)} {index : Nat}
    {code : List Instr} (h : defineLabels table index code = .ok table') {l : String} :
    (∀ j, table.lookup l = some j → table'.lookup l = some j) ∧
      (∀ j, code[j]? = some (.named .label l) → table'.lookup l = some (index + j)) ∧
      (table'.lookup l ≠ none → table.lookup l ≠ none ∨ l ∈ defs code) := by
  induction code generalizing table index with
  | nil =>
    simp only [defineLabels, Except.ok.injEq] at h
    subst h
    simp
  | cons i code ih =>
    cases hi : i.label? with
    | none =>
      simp only [defineLabels, hi] at h
      obtain ⟨h₁, h₂, h₃⟩ := ih h
      refine ⟨h₁, ?_, by simpa [hi] using h₃⟩
      rintro (_ | j) hj
      · have : i = .named .label l := by simpa using hj
        rw [label?_eq_some.2 this] at hi; cases hi
      · rw [h₂ j (by simpa using hj)]; congr 1; omega
    | some l₀ =>
      simp only [defineLabels, hi] at h
      split at h
      · cases h
      · next hnone =>
        obtain ⟨h₁, h₂, h₃⟩ := ih h
        have hself : l = l₀ → table'.lookup l = some index := by
          rintro rfl; exact h₁ index (by simp)
        have hother : l ≠ l₀ → List.lookup l ((l₀, index) :: table) = table.lookup l :=
          fun hne => by simp [List.lookup_cons, beq_false_of_ne hne]
        refine ⟨fun j hj => ?_, ?_, fun hne => ?_⟩
        · by_cases he : l = l₀
          · subst he; simp [hj] at hnone
          · exact h₁ j (by rw [hother he]; exact hj)
        · rintro (_ | j) hj
          · have : i = .named .label l := by simpa using hj
            rw [label?_eq_some.2 this, Option.some.injEq] at hi
            exact hself hi
          · rw [h₂ j (by simpa using hj)]; congr 1; omega
        · by_cases he : l = l₀
          · right; simp [hi, he]
          · rw [hother he] at h₃
            exact (h₃ hne).imp_right (by simp [hi, he])

/-- The table has exactly the labels that the code defines. -/
theorem lookup_isSome_iff {table : List (String × Nat)} {code : List Instr}
    (h : defineLabels [] 0 code = .ok table) {l : String} :
    (table.lookup l).isSome ↔ l ∈ defs code := by
  constructor
  · intro hs
    have := (lookup_of_defineLabels h (l := l)).2.2 (Option.isSome_iff_ne_none.1 hs)
    simpa using this
  · intro hl
    obtain ⟨j, hj⟩ := List.getElem?_of_mem (mem_defs_iff.1 hl)
    rw [(lookup_of_defineLabels h).2.1 j hj]
    rfl

theorem checkTargets_eq_ok_iff {table : List (String × Nat)} {index : Nat} {code : List Instr} :
    checkTargets table index code = .ok () ↔ ∀ l ∈ jumps code, (table.lookup l).isSome := by
  induction code generalizing index with
  | nil => simp [checkTargets]
  | cons i code ih =>
    cases hi : i.target? with
    | none => simp [checkTargets, hi, ih]
    | some l =>
      simp only [checkTargets, hi, jumps_cons, Option.toList_some, List.singleton_append,
        List.forall_mem_cons]
      cases hl : (table.lookup l).isSome <;> simp [ih]

/-! ## Linking -/

theorem link_eq_ok_iff {code : List Instr} {p : Linked} : link code = .ok p ↔
    ∃ table, defineLabels [] 0 code = .ok table ∧ checkTargets table 0 code = .ok () ∧
      p = ⟨code.toArray, table⟩ := by
  unfold link
  simp only [bind, Except.bind, pure, Except.pure]
  constructor
  · intro h
    split at h
    · cases h
    · next table hd =>
      split at h
      · cases h
      · next u hc => exact ⟨table, hd, hc, (Except.ok.inj h).symm⟩
  · rintro ⟨table, hd, hc, rfl⟩
    simp [hd, hc]

end Code

/-- Every label of a program leads to its definition. -/
def Linked.Exact (p : Linked) : Prop :=
  ∀ {i : Nat} {l : String}, p.get? i = some (.named .label l) → p.target? l = some i

namespace Code

theorem exact_of_link {code : List Instr} {p : Linked} (h : link code = .ok p) : p.Exact := by
  obtain ⟨table, hd, -, rfl⟩ := link_eq_ok_iff.1 h
  intro i l hi
  have := (lookup_of_defineLabels hd).2.1 i (by simpa [Linked.get?] using hi)
  simpa [Linked.target?] using this

theorem get?_of_link {code : List Instr} {p : Linked} (h : link code = .ok p) (i : Nat) :
    p.get? i = code[i]? := by
  obtain ⟨table, -, -, rfl⟩ := link_eq_ok_iff.1 h
  simp [Linked.get?]

theorem size_of_link {code : List Instr} {p : Linked} (h : link code = .ok p) :
    p.code.size = code.length := by
  obtain ⟨table, -, -, rfl⟩ := link_eq_ok_iff.1 h
  simp

/-- A label leads nowhere but to its definition. -/
theorem get?_of_target? {code : List Instr} {p : Linked} (h : link code = .ok p) {l : String}
    {j : Nat} (hj : p.target? l = some j) : p.get? j = some (.named .label l) := by
  have hmem : l ∈ defs code := by
    obtain ⟨table, hd, -, rfl⟩ := link_eq_ok_iff.1 h
    exact (lookup_isSome_iff hd).1 (Option.isSome_iff_exists.2 ⟨j, hj⟩)
  obtain ⟨k, hk⟩ := List.getElem?_of_mem (mem_defs_iff.1 hmem)
  rw [← get?_of_link h] at hk
  obtain rfl : k = j := Option.some.inj ((exact_of_link h hk).symm.trans hj)
  exact hk

/-- Every jump of a linked program has a target. -/
theorem target?_of_link {code : List Instr} {p : Linked} (h : link code = .ok p) {n : Nat}
    {i : Instr} {l : String} (hi : p.get? n = some i) (hl : i.target? = some l) :
    ∃ j, p.target? l = some j := by
  obtain ⟨table, -, hc, rfl⟩ := link_eq_ok_iff.1 h
  have hmem : i ∈ code := List.mem_of_getElem? (by simpa [Linked.get?] using hi)
  exact Option.isSome_iff_exists.1
    (checkTargets_eq_ok_iff.1 hc l (List.mem_filterMap.2 ⟨i, hmem, hl⟩))

/-- **Code links exactly if it defines no label twice and jumps to defined labels
    only.** -/
theorem link_isOk_iff {code : List Instr} :
    (∃ p, link code = .ok p) ↔ (defs code).Nodup ∧ ∀ l ∈ jumps code, l ∈ defs code := by
  constructor
  · rintro ⟨p, h⟩
    obtain ⟨table, hd, hc, -⟩ := link_eq_ok_iff.1 h
    refine ⟨(defineLabels_isOk_iff.1 ⟨table, hd⟩).1, fun l hl => ?_⟩
    exact (lookup_isSome_iff hd).1 (checkTargets_eq_ok_iff.1 hc l hl)
  · rintro ⟨hn, hj⟩
    obtain ⟨table, hd⟩ := defineLabels_isOk_iff.2 ⟨hn, fun l _ => (rfl : List.lookup l [] = none)⟩
    refine ⟨_, link_eq_ok_iff.2 ⟨table, hd, checkTargets_eq_ok_iff.2 fun l hl => ?_, rfl⟩⟩
    exact (lookup_isSome_iff hd).2 (hj l hl)

end Code

end StackLang
