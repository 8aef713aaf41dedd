/-
  Runs of code with other labels.

  Linking turns labels into indices, so it does not matter what they are called.

  * `Code.Alike f code R x x'`: two passes, over code and over the same code with its
    labels renamed by `f`, have results related by `R`, or refuse the same instruction
    for the same reason, up to the names of labels;
  * code links alike if the renaming is one-to-one on its labels (`Code.link_alike`):
    the two tables of labels lead to the same indices (`Code.TablesAgree`);
  * the two programs then go in lockstep (`Linked.Relabels.step`), from every state and
    for any number of steps (`Linked.Relabels.run`);
  * `Code.relabel_alike` puts this together, also for the normal form of code.
-/
import StackLang.Proofs.Relabel
import StackLang.Proofs.Step

namespace StackLang

/-! ## Passes over code -/

/-- Renames the label that a fault names. -/
def Fault.mapLabel (f : String → String) : Fault → Fault
  | .duplicateLabel l => .duplicateLabel (f l)
  | .unresolvedLabel l => .unresolvedLabel (f l)
  | e => e

namespace Instr

variable {f : String → String}

@[simp] theorem label?_mapLabel (i : Instr) : (i.mapLabel f).label? = i.label?.map f := by
  rcases i with _ | _ | _ | _ | ⟨_ | _ | _ | _ | _, l⟩ <;> rfl

@[simp] theorem target?_mapLabel (i : Instr) : (i.mapLabel f).target? = i.target?.map f := by
  rcases i with _ | _ | _ | _ | ⟨_ | _ | _ | _ | _, l⟩ <;> rfl

theorem labelName?_of_label? {i : Instr} {l : String} (h : i.label? = some l) :
    i.labelName? = some l := by
  rcases i with _ | _ | _ | _ | ⟨_ | _ | _ | _ | _, x⟩ <;> first | exact h | cases h

theorem labelName?_of_target? {i : Instr} {l : String} (h : i.target? = some l) :
    i.labelName? = some l := by
  rcases i with _ | _ | _ | _ | ⟨_ | _ | _ | _ | _, x⟩ <;> first | exact h | cases h

end Instr

namespace Code

variable {f : String → String} {code : List Instr} {α β : Type}

/-- Two passes, over code and over the same code with other labels, succeed with related
    results, or both refuse the instruction at the same index. -/
inductive Alike (f : String → String) (code : List Instr) (R : α → α → Prop) :
    Except Report α → Except Report α → Prop
  | ok {a a'} : R a a' → Alike f code R (.ok a) (.ok a')
  | refused {k i e} : code[k]? = some i →
      Alike f code R (.error (.located k i.text e))
        (.error (.located k (i.mapLabel f).text (e.mapLabel f)))

namespace Alike

variable {R : α → α → Prop} {x x' : Except Report α}

theorem mono {R' : α → α → Prop} (hR : ∀ a a', R a a' → R' a a') (h : Alike f code R x x') :
    Alike f code R' x x' := by
  cases h with
  | ok ha => exact .ok (hR _ _ ha)
  | refused hi => exact .refused hi

/-- One pass after another. -/
theorem bind {Q : β → β → Prop} {g g' : α → Except Report β} (h : Alike f code R x x')
    (hg : ∀ a a', x = .ok a → R a a' → Alike f code Q (g a) (g' a')) :
    Alike f code Q (x >>= g) (x' >>= g') := by
  cases h with
  | ok ha => exact hg _ _ rfl ha
  | refused hi => exact .refused hi

end Alike

/-! ## Linking -/

/-- The second table leads the new names of some labels to the same indices. -/
def TablesAgree (f : String → String) (S : Set String) (table table' : List (String × Nat)) :
    Prop := ∀ l ∈ S, table'.lookup (f l) = table.lookup l

theorem TablesAgree.cons {S : Set String} {table table' : List (String × Nat)} {l : String}
    (h : TablesAgree f S table table') (hf : Set.InjOn f S) (hl : l ∈ S) (k : Nat) :
    TablesAgree f S ((l, k) :: table) ((f l, k) :: table') := by
  intro l' hl'
  rw [List.lookup_cons, List.lookup_cons, beq_of_injOn hf hl' hl, h l' hl']

theorem defineLabels_alike (hf : Set.InjOn f (labelSet code)) : ∀ {rest : List Instr} {k : Nat}
    {table table' : List (String × Nat)}, code.drop k = rest →
      TablesAgree f (labelSet code) table table' →
      Alike f code (TablesAgree f (labelSet code)) (defineLabels table k rest)
        (defineLabels table' k (relabel f rest))
  | [], _, _, _, _, ht => .ok ht
  | i :: rest, k, table, table', hk, ht => by
    obtain ⟨hi, hrest⟩ := getElem?_of_drop hk
    simp only [relabel, List.map_cons, defineLabels, Instr.label?_mapLabel]
    cases hl : i.label? with
    | none => exact defineLabels_alike hf hrest ht
    | some l =>
      have hmem : l ∈ labelSet code :=
        mem_labelSet_of_mem (List.mem_of_getElem? hi) (Instr.labelName?_of_label? hl)
      simp only [Option.map_some, ht l hmem]
      split
      · exact .refused (e := .duplicateLabel l) hi
      · exact defineLabels_alike hf hrest (ht.cons hf hmem k)

theorem checkTargets_alike {table table' : List (String × Nat)}
    (ht : TablesAgree f (labelSet code) table table') : ∀ {rest : List Instr} {k : Nat},
      code.drop k = rest →
      Alike f code Eq (checkTargets table k rest) (checkTargets table' k (relabel f rest))
  | [], _, _ => .ok rfl
  | i :: rest, k, hk => by
    obtain ⟨hi, hrest⟩ := getElem?_of_drop hk
    simp only [relabel, List.map_cons, checkTargets, Instr.target?_mapLabel]
    cases hl : i.target? with
    | none => exact checkTargets_alike ht hrest
    | some l =>
      have hmem : l ∈ labelSet code :=
        mem_labelSet_of_mem (List.mem_of_getElem? hi) (Instr.labelName?_of_target? hl)
      simp only [Option.map_some, ht l hmem]
      split
      · exact checkTargets_alike ht hrest
      · exact .refused (e := .unresolvedLabel l) hi

end Code

/-- The second program is the first one with other labels, and its jumps lead to the
    same indices. -/
structure Linked.Relabels (f : String → String) (p p' : Linked) : Prop where
  code : p'.code = p.code.map (Instr.mapLabel f)
  target? : ∀ {k i l}, p.get? k = some i → i.target? = some l →
    ∃ j, p.target? l = some j ∧ p'.target? (f l) = some j

/-- **Code links alike with other labels**, if no two of its labels become one. -/
theorem Code.link_alike {f : String → String} {code : List Instr}
    (hf : Set.InjOn f (labelSet code)) :
    Alike f code (Linked.Relabels f) (link code) (link (relabel f code)) := by
  have hempty : TablesAgree f (labelSet code) [] [] := fun _ _ => rfl
  refine (defineLabels_alike hf List.drop_zero hempty).bind fun table table' _ ht => ?_
  refine (checkTargets_alike ht List.drop_zero).bind fun _ _ hc _ => ?_
  refine .ok ⟨by simp [relabel], fun {k i l} hi hl => ?_⟩
  have hmem : i ∈ code := List.mem_of_getElem? (by simpa [Linked.get?] using hi)
  obtain ⟨j, hj⟩ := Option.isSome_iff_exists.1
    (checkTargets_eq_ok_iff.1 hc l (List.mem_filterMap.2 ⟨i, hmem, hl⟩))
  exact ⟨j, hj, (ht l (mem_labelSet_of_mem hmem (Instr.labelName?_of_target? hl))).trans hj⟩

/-! ## Lockstep -/

/-- The same outcome, but for the text of the instruction that failed, which has
    another label. -/
inductive Outcome.Relabels (f : String → String) (p : Linked) : Outcome → Outcome → Prop
  | same {o} : Relabels f p o o
  | failed {k i e} : p.get? k = some i →
      Relabels f p (.failed (.located k i.text e)) (.failed (.located k (i.mapLabel f).text e))

namespace Linked

variable {f : String → String} {p p' : Linked}

/-- From every state, whatever the programs write to, any number of steps leads both to
    the same state and the same outcome. -/
def SameRuns (f : String → String) (p p' : Linked) : Prop :=
  ∀ {W : Type} [Writer W] n (s : State W),
    (p'.run n s).1 = (p.run n s).1 ∧ Outcome.Relabels f p (p.run n s).2 (p'.run n s).2

namespace Relabels

theorem get? (h : p.Relabels f p') (k : Nat) : p'.get? k = (p.get? k).map (Instr.mapLabel f) := by
  simp [Linked.get?, h.code]

variable {W : Type} [Writer W]

/-- An instruction does the same with its new label. -/
theorem execute (h : p.Relabels f p') {k : Nat} {i : Instr} (hi : p.get? k = some i) :
    ((i.mapLabel f).execute p' : Exec W Unit) = i.execute p := by
  cases i with
  | push | print | plain | typed => rfl
  | named op l =>
    cases op with
    | load | save | label => rfl
    | jmp | fjmp =>
      obtain ⟨j, hj, hj'⟩ := h.target? hi rfl
      simp only [Instr.mapLabel, Instr.execute, Exec.named, Exec.jump, hj, hj']

/-- **One step keeps the programs in lockstep.**  If it fails, it does so for the same
    reason. -/
theorem step (h : p.Relabels f p') (s : State W) : p'.step s = p.step s ∨
    ∃ i t e, p.get? s.ip = some i ∧ p.step s = .failed t (.located s.ip i.text e) ∧
      p'.step s = .failed t (.located s.ip (i.mapLabel f).text e) := by
  cases hi : p.get? s.ip with
  | none =>
    have hi' : p'.get? s.ip = none := by rw [h.get?, hi, Option.map_none]
    exact .inl ((step_eq_halted hi').trans (step_eq_halted hi).symm)
  | some i =>
    have hi' : p'.get? s.ip = some (i.mapLabel f) := by rw [h.get?, hi, Option.map_some]
    cases hx : (i.execute p).run { s with ip := s.ip + 1 } with
    | ok u t =>
      have hx' : ((i.mapLabel f).execute p').run { s with ip := s.ip + 1 } = .ok u t := by
        rw [h.execute hi, hx]
      exact .inl ((step_eq_next hi' hx').trans (step_eq_next hi hx).symm)
    | error e t =>
      have hx' : ((i.mapLabel f).execute p').run { s with ip := s.ip + 1 } = .error e t := by
        rw [h.execute hi, hx]
      exact .inr ⟨i, t, e, rfl, step_eq_failed hi hx, step_eq_failed hi' hx'⟩

theorem finish (h : p.Relabels f p') (s : State W) : p'.finish s = p.finish s := by
  simp only [Linked.finish, h.code, Array.size_map]

/-- **The programs have the same runs.** -/
theorem run (h : p.Relabels f p') : SameRuns f p p' := by
  intro W _ n
  induction n with
  | zero => exact fun _ => ⟨rfl, .same⟩
  | succ n ih =>
    intro s
    simp only [Linked.run]
    rcases h.step s with hs | ⟨i, t, e, hi, hs, hs'⟩
    · rw [hs]
      cases p.step s with
      | halted =>
        rw [h.finish s]
        exact ⟨rfl, .same⟩
      | next t => exact ih t
      | failed t r => exact ⟨rfl, .same⟩
    · rw [hs, hs']
      exact ⟨rfl, .failed hi⟩

end Relabels

end Linked

/-- **What the labels in code are called does not matter.**  If no two of them become
    one, then code with other labels links if and only if the code does, and is refused
    at the same instruction otherwise.  From every state both machines go through the
    same states, and fail at the same instruction with the same fault or not at all.
    So does the normal form. -/
theorem Code.relabel_alike (code : List Instr) :
    (∀ f, Set.InjOn f (labelSet code) →
      Alike f code (Linked.SameRuns f) (link code) (link (relabel f code))) ∧
    Set.InjOn (normalName code) (labelSet code) ∧
      Alike (normalName code) code (Linked.SameRuns (normalName code)) (link code)
        (link (normalize code)) := by
  have hall : ∀ f, Set.InjOn f (labelSet code) →
      Alike f code (Linked.SameRuns f) (link code) (link (relabel f code)) :=
    fun f hf => (link_alike hf).mono fun p p' h => h.run
  refine ⟨hall, injOn_normalName code, ?_⟩
  rw [normalize_eq_relabel]
  exact hall _ (injOn_normalName code)

/-- A loop with two labels that change their names. -/
theorem Code.relabel_alike_swapped :
    let f := Equiv.swap "L0" "L1"
    let code : List Instr := [.named .label "L1", .typed .read .bool, .named .fjmp "L0",
      .named .jmp "L1", .named .label "L0"]
    let code' : List Instr := [.named .label "L0", .typed .read .bool, .named .fjmp "L1",
      .named .jmp "L0", .named .label "L1"]
    Set.InjOn f (labelSet code) ∧ relabel f code = code' ∧
      ∃ p p', link code = .ok p ∧ link code' = .ok p' ∧ Linked.SameRuns f p p' := by
  intro f code code'
  have hf : Set.InjOn f (labelSet code) := f.injective.injOn
  have hcode : relabel f code = code' := by decide
  have halike := (relabel_alike code).1 f hf
  rw [hcode] at halike
  have hp : link code = .ok ⟨code.toArray, [("L0", 4), ("L1", 0)]⟩ := by rfl
  have hp' : link code' = .ok ⟨code'.toArray, [("L1", 4), ("L0", 0)]⟩ := by rfl
  rw [hp, hp'] at halike
  cases halike with
  | ok h => exact ⟨hf, hcode, _, _, hp, hp', h⟩

end StackLang
