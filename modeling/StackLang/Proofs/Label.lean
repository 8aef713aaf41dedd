/-
  The labels of generated code.

  The code of an expression or of statements defines exactly the labels that were
  minted for it, each of them once, and jumps to no others.  Hence the code of a
  program links (`Program.link_of_gen`).
-/
import Mathlib.Data.List.Nodup
import StackLang.Proofs.Emit
import StackLang.Proofs.Link

namespace StackLang

theorem labelName_injective {m n : Nat} (h : labelName m = labelName n) : m = n := by
  have h' : Number.naturalText m = Number.naturalText n := by
    have := String.ofList_inj.1 h
    simpa using this
  have := congrArg (Nat.ofDigitChars 10 · 0) h'
  simpa [Number.naturalText] using this

/-- The numbers from `n` up to `n₂` are split at a number between them. -/
theorem range'_append_of_le {n n₁ n₂ : Nat} (h₁ : n ≤ n₁) (h₂ : n₁ ≤ n₂) :
    List.range' n (n₁ - n) ++ List.range' n₁ (n₂ - n₁) = List.range' n (n₂ - n) := by
  have h := @List.range'_append_1 n (n₁ - n) (n₂ - n₁)
  rwa [show n + (n₁ - n) = n₁ by omega, show n₁ - n + (n₂ - n₁) = n₂ - n by omega] at h

/-- The code defines exactly the labels with the numbers from `n` up to `n'`, each
    of them once, and jumps to them only. -/
structure Code.Mints (n n' : Nat) (c : List Instr) : Prop where
  le : n ≤ n'
  defs : (defs c).Perm ((List.range' n (n' - n)).map labelName)
  jumps : ∀ l ∈ jumps c, l ∈ Code.defs c

namespace Code.Mints

variable {n n₁ n₂ : Nat} {c c₁ c₂ : List Instr}

/-- Code without labels. -/
theorem plain (hd : Code.defs c = []) (hj : Code.jumps c = []) : Mints n n c :=
  ⟨Nat.le_refl n, by simp [hd], by simp [hj]⟩

theorem append (h₁ : Mints n n₁ c₁) (h₂ : Mints n₁ n₂ c₂) : Mints n n₂ (c₁ ++ c₂) := by
  refine ⟨Nat.le_trans h₁.le h₂.le, ?_, fun l hl => ?_⟩
  · rw [defs_append, ← range'_append_of_le h₁.le h₂.le, List.map_append]
    exact h₁.defs.append h₂.defs
  · rw [jumps_append, List.mem_append] at hl
    rw [defs_append, List.mem_append]
    exact hl.imp (h₁.jumps l) (h₂.jumps l)

/-- Code that follows or precedes code without labels. -/
theorem append_plain (h : Mints n n₁ c₁) (hd : Code.defs c₂ = []) (hj : Code.jumps c₂ = []) :
    Mints n n₁ (c₁ ++ c₂) := h.append (plain hd hj)

/-- Code around which two labels are placed that were minted before it. -/
theorem around (h : Mints (n + 2) n₁ c)
    (hd : (Code.defs c₁).Perm (labelName n :: labelName (n + 1) :: Code.defs c))
    (hj : ∀ l ∈ Code.jumps c₁, l = labelName n ∨ l = labelName (n + 1) ∨ l ∈ Code.jumps c) :
    Mints n n₁ c₁ := by
  have hle := h.le
  refine ⟨by omega, hd.trans ?_, fun l hl => ?_⟩
  · have hsplit : List.range' n (n₁ - n) = n :: (n + 1) :: List.range' (n + 2) (n₁ - (n + 2)) := by
      rw [show n₁ - n = n₁ - (n + 2) + 1 + 1 by omega, List.range'_succ, List.range'_succ]
    rw [hsplit]
    exact (h.defs.cons _).cons _
  · rw [hd.mem_iff, List.mem_cons, List.mem_cons]
    exact (hj l hl).imp_right (Or.imp_right (h.jumps l))

/-- Code that defines what was minted for it links. -/
theorem link (h : Mints n n₁ c) : ∃ p, Code.link c = .ok p := by
  refine Code.link_isOk_iff.2 ⟨?_, h.jumps⟩
  rw [h.defs.nodup_iff]
  exact List.Nodup.map_on (fun i _ j _ hij => labelName_injective hij) List.nodup_range'

end Code.Mints

open Code

@[simp] theorem Ty.defs_conversion (given wanted : Ty) : defs (given.conversion wanted) = [] := by
  unfold conversion; split <;> rfl

@[simp] theorem Ty.jumps_conversion (given wanted : Ty) : jumps (given.conversion wanted) = [] := by
  unfold conversion; split <;> rfl

theorem Expr.Emits.mints {Γ : Scopes} {n n' : Nat} {e : Expr} {c : List Instr}
    (h : e.Emits Γ n c n') : Mints n n' c := by
  induction h with
  | lit | var => exact .plain rfl rfl
  | minus _ ih | not _ ih => exact ih.append_plain rfl rfl
  | plain _ _ _ ihl ihr => exact (ihl.append ihr).append_plain rfl rfl
  | numeric _ _ _ _ ihl ihr =>
    exact ((ihl.append_plain (Ty.defs_conversion _ _) (Ty.jumps_conversion _ _)).append
      (ihr.append_plain (Ty.defs_conversion _ _) (Ty.jumps_conversion _ _))).append_plain rfl rfl
  | @equality _ _ neg _ _ _ _ _ _ _ _ _ _ _ ihl ihr =>
    exact ((ihl.append_plain (Ty.defs_conversion _ _) (Ty.jumps_conversion _ _)).append
      (ihr.append_plain (Ty.defs_conversion _ _) (Ty.jumps_conversion _ _))).append_plain
        (by cases neg <;> rfl) (by cases neg <;> rfl)
  | cond _ _ _ ihc iht ihe =>
    refine ((ihc.append iht).append ihe).around ?_ ?_
    · refine List.perm_iff_count.2 fun l => ?_
      simp [Instr.label?, List.count_cons]
      omega
    · intro l hl
      simp [Instr.target?] at hl ⊢
      grind
  | paren _ ih => exact ih

theorem Expr.EmitsAll.mints {Γ : Scopes} {n n' : Nat} {es : List Expr} {c : List Instr}
    (h : Expr.EmitsAll Γ n es c n') : Mints n n' c := by
  induction h with
  | nil => exact .plain rfl rfl
  | cons he _ ih => exact he.mints.append ih

theorem Expr.EmitsStore.mints {Γ : Scopes} {x : String} {t : Ty} {n n' : Nat} {e : Expr}
    {c : List Instr} (h : e.EmitsStore Γ x t n c n') : Mints n n' c := by
  obtain ⟨he⟩ := h
  exact (he.mints.append_plain (Ty.defs_conversion _ _) (Ty.jumps_conversion _ _)).append_plain
    rfl rfl

theorem ForInit.Emits.mints {Γ Γ' : Scopes} {n n' : Nat} {init : Option ForInit} {c : List Instr}
    (h : ForInit.Emits Γ n init c Γ' n') : Mints n n' c := by
  cases h with
  | none => exact .plain rfl rfl
  | decl he _ => exact he.mints
  | assign _ he => exact he.mints

/-- A test defines its own labels, and jumps to one other. -/
theorem Expr.EmitsTest.mints {Γ : Scopes} {l : String} {n n' : Nat} {t : Option Expr}
    {c : List Instr} (h : Expr.EmitsTest Γ l n t c n') :
    ∃ c', Mints n n' c' ∧ defs c = defs c' ∧ ∀ l' ∈ jumps c, l' = l ∨ l' ∈ jumps c' := by
  cases h with
  | none => exact ⟨[], .plain rfl rfl, rfl, by simp⟩
  | some he =>
    refine ⟨_, he.mints, by simp [Instr.label?], ?_⟩
    intro l' hl'
    simp [Instr.target?] at hl' ⊢
    grind

theorem Stmt.EmitsAll.mints {Γ Γ' : Scopes} {n n' : Nat} {ss : List Stmt} {c : List Instr}
    (h : Stmt.EmitsAll Γ n ss c Γ' n') : Mints n n' c := by
  induction h with
  | nil | decl _ | readNil => exact .plain rfl rfl
  | cons _ _ ih₁ ih₂ => exact ih₁.append ih₂
  | assign _ he => exact he.mints
  | expr he => exact he.mints.append_plain rfl rfl
  | write hes => exact hes.mints.append_plain rfl rfl
  | readCons _ _ _ ih => exact (Mints.plain (c := [_, _]) rfl rfl).append ih
  | ifElse hc _ _ iht ihe =>
    refine ((hc.mints.append iht).append ihe).around ?_ ?_
    · refine List.perm_iff_count.2 fun l => ?_
      simp [Instr.label?, List.count_cons]
      omega
    · intro l hl
      simp [Instr.target?] at hl ⊢
      grind
  | whileLoop hc _ ih =>
    refine (hc.mints.append ih).around ?_ ?_
    · refine List.perm_iff_count.2 fun l => ?_
      simp [Instr.label?, List.count_cons]
      omega
    · intro l hl
      simp [Instr.target?] at hl ⊢
      grind
  | forLoop hi hc _ _ ihb ihs =>
    obtain ⟨c', hc', hd, hj⟩ := hc.mints
    refine hi.mints.append (((hc'.append ihb).append ihs).around ?_ ?_)
    · refine List.perm_iff_count.2 fun l => ?_
      simp [Instr.label?, hd, List.count_cons]
      omega
    · intro l hl
      simp [Instr.target?] at hl ⊢
      have := hj l
      grind
  | block _ ih => exact ih

/-- **The code of a program links.** -/
theorem Program.link_of_gen {p : Program} {code : List Instr} (h : p.gen = .ok code) :
    ∃ L, Code.link code = .ok L := by
  obtain ⟨Γ, n, he⟩ := Program.emitsAll_of_gen h
  exact he.mints.link

end StackLang
