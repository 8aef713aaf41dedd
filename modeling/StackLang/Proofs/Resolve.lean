/-
  Labels are resolved exactly, and jumps do not go astray.

  * `Code.Redefines code k`: the label at the index `k` was defined before;
  * `Code.Dangles code k`: the jump at the index `k` has no label;
  * `Code.Refused code r`: the report that code deserves if it does not link, on the
    first index of one kind or the other;
  * `Linked.Reachable m s`: runs of the machine lead to the state, also runs that go on
    behind a failure or the end of the program;
  * `Linked.Resolved code m`: no run of the machine leaves the code or misses a label;
  * `Code.link_exact` puts this together.
-/
import Mathlib.Order.Bounds.Basic
import StackLang.Proofs.Effect
import StackLang.Proofs.Link

namespace StackLang

/-! ## Code that does not link -/

namespace Code

variable {code : List Instr}

/-- The label at the index was already defined. -/
def Redefines (code : List Instr) (k : Nat) : Prop :=
  ∃ l, code[k]? = some (.named .label l) ∧ l ∈ defs (code.take k)

/-- The jump at the index has no target. -/
def Dangles (code : List Instr) (k : Nat) : Prop :=
  ∃ i l, code[k]? = some i ∧ i.target? = some l ∧ l ∉ defs code

/-- The report on code that does not link.  A label that is defined again comes before
    a jump without a target. -/
inductive Refused (code : List Instr) : Report → Prop
  | duplicate {k l} : IsLeast {j | Redefines code j} k → code[k]? = some (.named .label l) →
      Refused code (.located k (Instr.named .label l).text (.duplicateLabel l))
  | unresolved {k i l} : (defs code).Nodup → IsLeast {j | Dangles code j} k →
      code[k]? = some i → i.target? = some l →
      Refused code (.located k i.text (.unresolvedLabel l))

theorem redefines_iff {k : Nat} {i : Instr} (hi : code[k]? = some i) :
    Redefines code k ↔ ∃ l, i.label? = some l ∧ l ∈ defs (code.take k) := by
  simp [Redefines, hi, label?_eq_some]

theorem dangles_iff {k : Nat} {i : Instr} (hi : code[k]? = some i) :
    Dangles code k ↔ ∃ l, i.target? = some l ∧ l ∉ defs code := by
  simp [Dangles, hi]

theorem defs_take_succ {k : Nat} {i : Instr} (hi : code[k]? = some i) :
    defs (code.take (k + 1)) = defs (code.take k) ++ i.label?.toList := by
  rw [List.take_add_one, hi, defs_append]
  simp

theorem isLeast_of_forall {P : Nat → Prop} {k : Nat} (hk : P k) (h : ∀ j < k, ¬ P j) :
    IsLeast {j | P j} k :=
  ⟨hk, fun j hj => Nat.le_of_not_lt fun hlt => h j hlt hj⟩

/-- The pass over the labels stops at the first one that was defined before. -/
theorem defineLabels_error {r : Report} : ∀ {rest : List Instr} {k : Nat}
    {table : List (String × Nat)}, code.drop k = rest →
      (∀ l, (table.lookup l).isSome ↔ l ∈ defs (code.take k)) → (∀ j < k, ¬ Redefines code j) →
      defineLabels table k rest = .error r → Refused code r
  | [], _, _, _, _, _, h => by cases h
  | i :: rest, k, table, hk, htable, hbefore, h => by
    obtain ⟨hi, hrest⟩ := getElem?_of_drop hk
    have hdefs := defs_take_succ hi
    have hthis := redefines_iff hi
    rw [defineLabels] at h
    cases hl : i.label? with
    | none =>
      simp only [hl] at h
      have hnot : ¬ Redefines code k := by simp [hthis, hl]
      refine defineLabels_error hrest ?_ (Nat.forall_lt_succ_right.2 ⟨hbefore, hnot⟩) h
      simpa [hdefs, hl] using htable
    | some l =>
      simp only [hl] at h
      split at h
      · next hsome =>
        obtain rfl := Except.error.inj h
        have hre : Redefines code k := hthis.2 ⟨l, hl, (htable l).1 hsome⟩
        obtain rfl := label?_eq_some.1 hl
        exact .duplicate (isLeast_of_forall hre hbefore) hi
      · next hnone =>
        have hnot : ¬ Redefines code k := by simpa [hthis, hl, htable] using hnone
        refine defineLabels_error hrest (fun l' => ?_)
          (Nat.forall_lt_succ_right.2 ⟨hbefore, hnot⟩) h
        -- the table holds the labels up to here, this one included
        by_cases he : l' = l
        · simp [hdefs, hl, he]
        · simp [hdefs, hl, he, List.lookup_cons, beq_false_of_ne he, htable]

/-- The pass over the jumps stops at the first one without a label. -/
theorem checkTargets_error {r : Report} {table : List (String × Nat)}
    (hdefs : (defs code).Nodup) (htable : ∀ l, (table.lookup l).isSome ↔ l ∈ defs code) :
    ∀ {rest : List Instr} {k : Nat}, code.drop k = rest → (∀ j < k, ¬ Dangles code j) →
      checkTargets table k rest = .error r → Refused code r
  | [], _, _, _, h => by cases h
  | i :: rest, k, hk, hbefore, h => by
    obtain ⟨hi, hrest⟩ := getElem?_of_drop hk
    have hthis := dangles_iff hi
    rw [checkTargets] at h
    cases hl : i.target? with
    | none =>
      simp only [hl] at h
      have hnot : ¬ Dangles code k := by simp [hthis, hl]
      exact checkTargets_error hdefs htable hrest (Nat.forall_lt_succ_right.2 ⟨hbefore, hnot⟩) h
    | some l =>
      simp only [hl] at h
      split at h
      · next hsome =>
        have hnot : ¬ Dangles code k := by simpa [hthis, hl, htable] using hsome
        exact checkTargets_error hdefs htable hrest (Nat.forall_lt_succ_right.2 ⟨hbefore, hnot⟩) h
      · next hnone =>
        obtain rfl := Except.error.inj h
        have hno : Dangles code k := hthis.2 ⟨l, hl, fun hmem => hnone ((htable l).2 hmem)⟩
        exact .unresolved hdefs (isLeast_of_forall hno hbefore) hi hl

/-- Code is refused for the first of its labels or jumps that is wrong. -/
theorem link_error {r : Report} (h : link code = .error r) : Refused code r := by
  cases hd : defineLabels [] 0 code with
  | error r' =>
    have hr : r' = r := by simpa [link, hd, bind, Except.bind] using h
    exact hr ▸ defineLabels_error rfl (by simp) (by simp) hd
  | ok table =>
    have hnodup := (defineLabels_isOk_iff.1 ⟨table, hd⟩).1
    cases hc : checkTargets table 0 code with
    | error r' =>
      have hr : r' = r := by simpa [link, hd, hc, bind, Except.bind] using h
      exact hr ▸ checkTargets_error hnodup (fun _ => lookup_isSome_iff hd) rfl (by simp) hc
    | ok u => simp [link, hd, hc, bind, Except.bind, pure, Except.pure] at h

end Code

/-! ## Machines -/

namespace Linked

/-- The states that a machine gets into: it starts, and any state can be run on, with
    any writer and for any number of steps, whatever the last run ended in. -/
inductive Reachable (m : Linked) : ∀ {W : Type}, State W → Prop
  | start {W : Type} {input : Input} {sink : W} : Reachable m { input, sink }
  | run {V W : Type} [Writer W] {s : State V} (sink : W) (fuel : Nat) : Reachable m s →
      Reachable m (m.run fuel { s with sink }).1

/-- The guarantees of a machine whose labels are resolved. -/
structure Resolved (code : List Instr) (m : Linked) : Prop where
  /-- what comes next is an instruction of the code, or its end -/
  inside : ∀ {W : Type} (s : State W), m.Reachable s → s.ip ≤ code.length
  /-- a jump that is taken leads to its label, which stands nowhere else -/
  jumps : ∀ {W : Type} [Writer W] (s : State W) i l, code[s.ip]? = some i →
    i.goesTo? s = some l → ∃ t, m.step s = .next t ∧
      code[t.ip]? = some (.named .label l) ∧ ∀ j, code[j]? = some (.named .label l) → j = t.ip
  resolves : ∀ {W : Type} [Writer W] (s : State W) fuel r l, (m.run fuel s).2 = .failed r →
    r.fault ≠ .unresolvedLabel l

variable {W : Type} [Writer W] {code : List Instr} {m : Linked} {s t : State W} {n : Nat}

variable (hm : Code.link code = .ok m)

include hm

/-- Every step, also one that fails, leads to an instruction or to the end. -/
theorem ip_le_of_step (h : m.step s = .next t ∨ ∃ r, m.step s = .failed t r) :
    t.ip ≤ code.length := by
  have hlt {k : Nat} {i : Instr} (hk : m.get? k = some i) : k < code.length := by
    rw [Code.get?_of_link hm] at hk
    exact (List.getElem?_eq_some_iff.1 hk).1
  cases hi : m.get? s.ip with
  | none => simp [step_eq_halted hi] at h
  | some i =>
    rcases ip_of_step hi h with hip | ⟨l, -, hl⟩
    · exact hip ▸ hlt hi
    · exact Nat.le_of_lt (hlt (Code.get?_of_target? hm hl))

theorem ip_le_of_run (h : s.ip ≤ code.length) : (m.run n s).1.ip ≤ code.length := by
  induction n generalizing s with
  | zero => exact h
  | succ n ih =>
    rw [run]
    cases hs : m.step s with
    | halted => exact h
    | failed t r => exact ip_le_of_step hm (.inr ⟨r, hs⟩)
    | next t => exact ih (ip_le_of_step hm (.inl hs))

omit [Writer W] in
theorem Reachable.ip_le (h : m.Reachable s) : s.ip ≤ code.length := by
  induction h with
  | start => exact Nat.zero_le _
  | run sink fuel _ ih => exact ip_le_of_run hm ih

/-- A jump that is taken goes on at its label. -/
theorem step_goesTo {i : Instr} {l : String} (hi : m.get? s.ip = some i)
    (hl : i.goesTo? s = some l) :
    ∃ t, m.step s = .next t ∧ m.get? t.ip = some (.named .label l) := by
  rcases Instr.goesTo?_eq_some.1 hl with rfl | ⟨rfl, hσ⟩
  · obtain ⟨j, hj⟩ := Code.target?_of_link hm hi rfl
    exact ⟨_, step_jmp hi hj, Code.get?_of_target? hm hj⟩
  · obtain ⟨j, hj⟩ := Code.target?_of_link hm hi rfl
    obtain ⟨σ, hσ⟩ := List.head?_eq_some_iff.1 hσ
    refine ⟨{ s with ip := j, stack := σ }, step_eq_next hi ?_, Code.get?_of_target? hm hj⟩
    simp only [EStateM.run, Instr.execute, Exec.fjmp_eq, hσ, Exec.jump_eq, hj]

/-- A jump of a linked program never misses its label. -/
theorem fault_of_step {r : Report} (h : m.step s = .failed t r) (l : String) :
    r.fault ≠ .unresolvedLabel l := by
  intro hl
  cases hi : m.get? s.ip with
  | none => simp [step_eq_halted hi] at h
  | some i =>
    have hrisk := risks_of_step hi h
    rw [hl] at hrisk
    rcases hrisk with ⟨hunderflow, -⟩ | hrisk
    · cases hunderflow
    · cases hrisk with
      | unresolvedLabel htarget hnone =>
        obtain ⟨j, hj⟩ := Code.target?_of_link hm hi htarget
        rw [hnone] at hj
        cases hj

theorem fault_of_run {r : Report} (h : (m.run n s).2 = .failed r) (l : String) :
    r.fault ≠ .unresolvedLabel l := by
  obtain ⟨k, t, -, hrun | ⟨-, hrun⟩ | ⟨u, r', hstep, hrun⟩⟩ := m.run_cases n s
  · simp [hrun] at h
  · -- completing the output fails for another reason
    rw [hrun] at h
    obtain ⟨cause, hcause⟩ := fault_of_finish h
    simp [hcause]
  · simp only [hrun, Outcome.failed.injEq] at h
    exact h ▸ fault_of_step hm hstep l

theorem resolved_of_link : m.Resolved code where
  inside _ hs := hs.ip_le hm
  jumps s i l hi hl := by
    rw [← Code.get?_of_link hm] at hi
    obtain ⟨t, hstep, ht⟩ := step_goesTo hm hi hl
    refine ⟨t, hstep, Code.get?_of_link hm _ ▸ ht, fun j hj => ?_⟩
    rw [← Code.get?_of_link hm] at hj
    exact Option.some.inj ((Code.exact_of_link hm hj).symm.trans (Code.exact_of_link hm ht))
  resolves _ _ _ l h := fault_of_run hm h l

end Linked

/-- **Labels are resolved exactly.**  Code links if and only if it defines no label twice
    and jumps to labels that it defines only.  Otherwise the report is on the first label
    that was defined before or, if there is none, on the first jump without a label.  A
    machine that was linked stays inside its code, in all states that runs lead to, its
    jumps go to the one place where their label stands, and no run misses a label. -/
theorem Code.link_exact (code : List Instr) :
    ((∃ m, link code = .ok m) ↔ (defs code).Nodup ∧ ∀ l ∈ jumps code, l ∈ defs code) ∧
    (∀ r, link code = .error r → Refused code r) ∧
    ∀ m, link code = .ok m → m.Resolved code :=
  ⟨link_isOk_iff, fun _ => link_error, fun _ => Linked.resolved_of_link⟩

/-- A label that is defined again is reported before a jump without a label. -/
example : Code.link [.named .jmp "b", .named .label "a", .named .label "a"] =
    .error (.located 2 "label a" (.duplicateLabel "a")) := rfl

end StackLang
