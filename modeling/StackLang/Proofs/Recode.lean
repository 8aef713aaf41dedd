/-
  The code of a renamed program.

  * `Code.Renames x y c c'`: the second code is the first one with `y` for `x` in
    some loads and saves, and the first one does not mention `y`;
  * the code of a renamed program is renamed in this sense
    (`Stmt.EmitsAll.renames`), and has the same labels (`Code.Renames.link`).
-/
import StackLang.Proofs.Link
import StackLang.Proofs.Rename

namespace StackLang

/-! ## Renamed code -/

/-- The variable that an instruction loads or saves. -/
def Instr.cell? : Instr → Option String
  | .named .load z | .named .save z => some z
  | _ => none

/-- The second code is the first one with `y` for `x` in some loads and saves. -/
inductive Code.Renames (x y : String) : List Instr → List Instr → Prop
  | nil : Renames x y [] []
  | keep {i c c'} : i.cell? ≠ some y → Renames x y c c' → Renames x y (i :: c) (i :: c')
  | own {op c c'} : op = .load ∨ op = .save → Renames x y c c' →
      Renames x y (.named op x :: c) (.named op y :: c')

namespace Code.Renames

variable {x y : String} {c c' d d' : List Instr}

theorem append (h₁ : Code.Renames x y c c') (h₂ : Code.Renames x y d d') :
    Code.Renames x y (c ++ d) (c' ++ d') := by
  induction h₁ with
  | nil => exact h₂
  | keep hi _ ih => exact .keep hi ih
  | own hop _ ih => exact .own hop ih

/-- An instruction that names no variable. -/
theorem skip {i : Instr} (hi : i.cell? = none) (h : Code.Renames x y c c') :
    Code.Renames x y (i :: c) (i :: c') := .keep (by simp [hi]) h

/-- Code that mentions no variable stays as it is. -/
theorem refl (h : ∀ i ∈ c, i.cell? = none) : Code.Renames x y c c := by
  induction c with
  | nil => exact .nil
  | cons i c ih =>
    rw [List.forall_mem_cons] at h
    exact skip h.1 (ih h.2)

/-- A use of a variable. -/
theorem use {op : Named} (hop : op = .load ∨ op = .save) {own : Bool} {z : String} (hz : z ≠ y) :
    Code.Renames x y [.named op z] [.named op (newName own x y z)] := by
  by_cases h : own = true ∧ z = x
  · rw [newName, if_pos h, h.2]
    exact .own hop .nil
  · rw [newName, if_neg h]
    refine .keep ?_ .nil
    rcases hop with rfl | rfl <;> simpa [Instr.cell?] using hz

theorem conversion {t u : Ty} : Code.Renames x y (t.conversion u) (t.conversion u) := by
  refine refl fun i hi => ?_
  unfold Ty.conversion at hi
  split at hi
  · rw [List.mem_singleton.1 hi]; rfl
  · cases hi

theorem length (h : Code.Renames x y c c') : c'.length = c.length := by
  induction h with
  | nil => rfl
  | keep _ _ ih | own _ _ ih => simp [ih]

end Code.Renames

/-! ## The code of expressions -/

section

variable {x y : String} {own own' : Bool} {Γ Γ' : Scopes} {n n' : Nat}

theorem Expr.Emits.renames {e : Expr} {c : List Instr} (he : e.Emits Γ n c n')
    (h : Scopes.Renames x y own Γ Γ') (hy : y ∉ e.names) :
    ∃ c', (e.rename (newName own x y)).Emits Γ' n c' n' ∧ Code.Renames x y c c' := by
  induction he with
  | lit => exact ⟨_, .lit, .refl (by simp [Instr.cell?])⟩
  | @var n z =>
    simp only [Expr.names, List.mem_singleton] at hy
    exact ⟨_, .var, .use (.inl rfl) (Ne.symm hy)⟩
  | @minus _ e _ _ _ ih =>
    obtain ⟨c', he', hc⟩ := ih hy
    have hm := Emits.minus he'
    rw [typeOf_rename (e := e) h hy] at hm
    exact ⟨_, hm, hc.append (.refl (by simp [Instr.cell?]))⟩
  | not _ ih =>
    obtain ⟨c', he', hc⟩ := ih hy
    exact ⟨_, .not he', hc.append (.refl (by simp [Instr.cell?]))⟩
  | plain hop _ _ ihl ihr =>
    simp only [Expr.names, List.mem_append, not_or] at hy
    obtain ⟨cl', hl', hcl⟩ := ihl hy.1
    obtain ⟨cr', hr', hcr⟩ := ihr hy.2
    exact ⟨_, .plain hop hl' hr', (hcl.append hcr).append (.refl (by simp [Instr.cell?]))⟩
  | numeric hop _ _ ht ihl ihr =>
    simp only [Expr.names, List.mem_append, not_or] at hy
    obtain ⟨cl', hl', hcl⟩ := ihl hy.1
    obtain ⟨cr', hr', hcr⟩ := ihr hy.2
    rw [← typeOf_rename h hy.1, ← typeOf_rename h hy.2] at ht ⊢
    exact ⟨_, .numeric hop hl' hr' ht, ((hcl.append .conversion).append
      (hcr.append .conversion)).append (.refl (by simp [Instr.cell?]))⟩
  | @equality _ _ neg _ _ _ _ _ _ _ hop _ _ ht ihl ihr =>
    simp only [Expr.names, List.mem_append, not_or] at hy
    obtain ⟨cl', hl', hcl⟩ := ihl hy.1
    obtain ⟨cr', hr', hcr⟩ := ihr hy.2
    rw [← typeOf_rename h hy.1, ← typeOf_rename h hy.2] at ht ⊢
    refine ⟨_, .equality hop hl' hr' ht, ((hcl.append .conversion).append
      (hcr.append .conversion)).append (.refl ?_)⟩
    cases neg <;> simp [Instr.cell?]
  | cond _ _ _ ihc iht ihe =>
    simp only [Expr.names, List.mem_append, not_or] at hy
    obtain ⟨cc', hc', hcc⟩ := ihc hy.1.1
    obtain ⟨ct', ht', hct⟩ := iht hy.1.2
    obtain ⟨ce', he', hce⟩ := ihe hy.2
    rw [← typeOf_rename h hy.1.2, ← typeOf_rename h hy.2]
    exact ⟨_, .cond hc' ht' he', hcc.append (.skip rfl ((hct.append .conversion).append
      (.skip rfl (.skip rfl ((hce.append .conversion).append (.skip rfl .nil))))))⟩
  | paren _ ih =>
    obtain ⟨c', he', hc⟩ := ih hy
    exact ⟨_, .paren he', hc⟩

theorem Expr.EmitsAll.renames {es : List Expr} {c : List Instr} (he : Expr.EmitsAll Γ n es c n')
    (h : Scopes.Renames x y own Γ Γ') (hy : y ∉ es.flatMap Expr.names) :
    ∃ c', Expr.EmitsAll Γ' n (es.map (·.rename (newName own x y))) c' n' ∧
      Code.Renames x y c c' := by
  induction he with
  | nil => exact ⟨_, .nil, .nil⟩
  | cons he _ ih =>
    simp only [List.flatMap_cons, List.mem_append, not_or] at hy
    obtain ⟨c₁', he', hc₁⟩ := he.renames h hy.1
    obtain ⟨c₂', hes', hc₂⟩ := ih hy.2
    exact ⟨_, .cons he' hes', hc₁.append hc₂⟩

/-! ## The code of statements -/

/-- A value that is stored under the new name of its variable. -/
theorem Expr.EmitsStore.renames {z : String} {t : Ty} {e : Expr} {c : List Instr}
    (he : e.EmitsStore Γ z t n c n') (h : Scopes.Renames x y own Γ Γ') (hy : y ∉ e.names)
    {w : String} (hw : Code.Renames x y [.named .save z] [.named .save w]) :
    ∃ c', (e.rename (newName own x y)).EmitsStore Γ' w t n c' n' ∧ Code.Renames x y c c' := by
  cases he with
  | store he =>
    obtain ⟨c', he', hc⟩ := he.renames h hy
    rw [← typeOf_rename h hy]
    exact ⟨_, .store he', (hc.append .conversion).append hw⟩

theorem ForInit.Emits.renames {Γ₁ : Scopes} {init init' : Option ForInit} {c : List Instr}
    (he : ForInit.Emits Γ n init c Γ₁ n') (hr : ForInit.Renames x y own init init' own')
    (h : Scopes.Renames x y own Γ Γ') (hy : y ∉ ForInit.names init) :
    ∃ c' Γ₁', ForInit.Emits Γ' n init' c' Γ₁' n' ∧ Code.Renames x y c c' ∧
      Scopes.Renames x y own' Γ₁ Γ₁' := by
  cases he with
  | none =>
    cases hr with
    | none => exact ⟨_, _, .none, .nil, h⟩
  | assign hx he =>
    simp only [names, List.mem_cons, not_or] at hy
    cases hr with
    | assign =>
      obtain ⟨c', he', hc⟩ := he.renames h hy.2 (.use (.inr rfl) (Ne.symm hy.1))
      exact ⟨_, _, .assign (by rw [h.get? _ (Ne.symm hy.1), hx]) he', hc, h⟩
  | decl he hd =>
    simp only [names, List.mem_cons, not_or] at hy
    cases hr with
    | kept =>
      obtain ⟨c', he', hc⟩ := he.renames h hy.2
        (.keep (by simpa [Instr.cell?] using Ne.symm hy.1) .nil)
      obtain ⟨Γ₁', hd', h₁⟩ := h.declare (Ne.symm hy.1) hd
      exact ⟨_, _, .decl he' hd', hc, h₁⟩
    | renamed =>
      obtain ⟨c', he', hc⟩ := he.renames h hy.2 (.own (.inr rfl) .nil)
      obtain ⟨Γ₁', hd', h₁⟩ := h.declare_self hd
      exact ⟨_, _, .decl he' hd', hc, h₁⟩

theorem Expr.EmitsTest.renames {l : String} {o : Option Expr} {c : List Instr}
    (he : Expr.EmitsTest Γ l n o c n') (h : Scopes.Renames x y own Γ Γ')
    (hy : y ∉ o.toList.flatMap Expr.names) :
    ∃ c', Expr.EmitsTest Γ' l n (o.map (·.rename (newName own x y))) c' n' ∧
      Code.Renames x y c c' := by
  cases he with
  | none => exact ⟨_, .none, .nil⟩
  | some he =>
    obtain ⟨c', he', hc⟩ := he.renames h (by simpa using hy)
    exact ⟨_, .some he', hc.append (.skip rfl .nil)⟩

theorem Stmt.renamesAll_singleton {s : Stmt} {ss' : List Stmt} :
    Stmt.RenamesAll x y own [s] ss' own' ↔ ∃ s', ss' = [s'] ∧ s.Renames x y own s' own' := by
  simp only [Stmt.RenamesAll]
  constructor
  · rintro ⟨s', _, _, rfl, hs, rfl, rfl⟩; exact ⟨s', rfl, hs⟩
  · rintro ⟨s', rfl, hs⟩; exact ⟨s', [], own', rfl, hs, rfl, rfl⟩

theorem Stmt.renamesAll_toList {o o' : Option Stmt} (h : Stmt.RenamesOption x y own o o' own') :
    Stmt.RenamesAll x y own o.toList o'.toList own' := by
  cases o with
  | none =>
    obtain ⟨rfl, rfl⟩ := h
    exact ⟨rfl, rfl⟩
  | some s =>
    obtain ⟨s', rfl, hs⟩ := h
    exact renamesAll_singleton.2 ⟨s', rfl, hs⟩

end

/-- **The code of renamed statements is renamed.** -/
theorem Stmt.EmitsAll.renames {x y : String} {Γ Γ₁ : Scopes} {n n' : Nat} {ss : List Stmt}
    {c : List Instr} (he : Stmt.EmitsAll Γ n ss c Γ₁ n') :
    ∀ {ss' : List Stmt} {own own' : Bool} {Γ' : Scopes},
      Stmt.RenamesAll x y own ss ss' own' → Scopes.Renames x y own Γ Γ' → y ∉ Stmt.namesAll ss →
      ∃ c' Γ₁', Stmt.EmitsAll Γ' n ss' c' Γ₁' n' ∧ Code.Renames x y c c' ∧
        Scopes.Renames x y own' Γ₁ Γ₁' := by
  induction he with
  | nil =>
    rintro _ _ _ Γ' ⟨rfl, rfl⟩ h -
    exact ⟨_, _, .nil, .nil, h⟩
  | cons _ _ ih₁ ih₂ =>
    rintro _ _ _ Γ' ⟨s', ss', own₁, rfl, hs, hss⟩ h hy
    simp only [Stmt.namesAll, List.mem_append, not_or] at hy
    obtain ⟨c₁', Γ₁', he₁, hc₁, h₁⟩ := ih₁ (renamesAll_singleton.2 ⟨s', rfl, hs⟩) h
      (by rw [namesAll_singleton]; exact hy.1)
    obtain ⟨c₂', Γ₂', he₂, hc₂, h₂⟩ := ih₂ hss h₁ hy.2
    exact ⟨_, _, .cons he₁ he₂, hc₁.append hc₂, h₂⟩
  | decl hd =>
    intro ss' own own' Γ' hr h hy
    simp only [namesAll_singleton, Stmt.names] at hy
    obtain ⟨_, rfl, ⟨rfl, rfl⟩ | ⟨hx, rfl, rfl⟩⟩ := renamesAll_singleton.1 hr
    · obtain ⟨Γ₁', hd', h₁⟩ := h.checkDeclareAll hy hd
      exact ⟨_, _, .decl hd', .nil, h₁⟩
    · obtain ⟨Γ₁', hd', h₁⟩ := h.checkDeclareAll_self hy hd
      exact ⟨_, _, .decl hd', .nil, by simpa [hx] using h₁⟩
  | assign hx he =>
    intro ss' own own' Γ' hr h hy
    obtain ⟨_, rfl, rfl, rfl⟩ := renamesAll_singleton.1 hr
    simp only [namesAll_singleton, Stmt.names, List.mem_cons, not_or] at hy
    obtain ⟨c', he', hc⟩ := he.renames h hy.2 (.use (.inr rfl) (Ne.symm hy.1))
    exact ⟨_, _, .assign (by rw [h.get? _ (Ne.symm hy.1), hx]) he', hc, h⟩
  | expr he =>
    intro ss' own own' Γ' hr h hy
    obtain ⟨_, rfl, rfl, rfl⟩ := renamesAll_singleton.1 hr
    rw [namesAll_singleton] at hy
    obtain ⟨c', he', hc⟩ := he.renames h hy
    exact ⟨_, _, .expr he', hc.append (.skip rfl .nil), h⟩
  | @write _ _ es _ _ he =>
    intro ss' own own' Γ' hr h hy
    obtain ⟨_, rfl, rfl, rfl⟩ := renamesAll_singleton.1 hr
    rw [namesAll_singleton] at hy
    obtain ⟨c', he', hc⟩ := he.renames h hy
    have hw := Stmt.EmitsAll.write he'
    rw [List.length_map] at hw
    exact ⟨_, _, hw, hc.append (.skip rfl .nil), h⟩
  | readNil =>
    intro ss' own own' Γ' hr h hy
    obtain ⟨_, rfl, rfl, rfl⟩ := renamesAll_singleton.1 hr
    exact ⟨_, _, .readNil, .nil, h⟩
  | @readCons _ _ z _ _ xs _ hx ht _ ih =>
    intro ss' own own' Γ' hr h hy
    obtain ⟨_, rfl, rfl, rfl⟩ := renamesAll_singleton.1 hr
    simp only [namesAll_singleton, Stmt.names, List.mem_cons, not_or] at hy
    obtain ⟨c', Γ₁', he', hc, h₁⟩ := ih (renamesAll_singleton.2 ⟨_, rfl, rfl, rfl⟩) h
      (by rw [namesAll_singleton]; exact hy.2)
    obtain rfl : Γ' = Γ₁' := he'.after_singleton
    exact ⟨_, _, .readCons (by rw [h.get? z (Ne.symm hy.1), hx]) ht he',
      .skip rfl ((Code.Renames.use (.inr rfl) (Ne.symm hy.1)).append hc), h⟩
  | ifElse hc _ _ iht ihe =>
    intro ss' own own' Γ' hr h hy
    obtain ⟨_, rfl, t', e', own₁, rfl, ht, he⟩ := renamesAll_singleton.1 hr
    simp only [namesAll_singleton, Stmt.names, List.mem_append, not_or, namesOption_eq] at hy iht
    obtain ⟨cc', hc', hcc⟩ := hc.renames h hy.1.1
    obtain ⟨ct', Γ₁', ht', hct, h₁⟩ := iht (renamesAll_singleton.2 ⟨t', rfl, ht⟩) h hy.1.2
    obtain ⟨ce', Γ₂', he', hce, h₂⟩ := ihe (renamesAll_toList he) h₁ hy.2
    exact ⟨_, _, .ifElse hc' ht' he', hcc.append (.skip rfl (hct.append (.skip rfl (.skip rfl
      (hce.append (.skip rfl .nil)))))), h₂⟩
  | whileLoop hc _ ihb =>
    intro ss' own own' Γ' hr h hy
    obtain ⟨_, rfl, b', rfl, hb⟩ := renamesAll_singleton.1 hr
    simp only [namesAll_singleton, Stmt.names, List.mem_append, not_or] at hy ihb
    obtain ⟨cc', hc', hcc⟩ := hc.renames h hy.1
    obtain ⟨cb', Γ₁', hb', hcb, h₁⟩ := ihb (renamesAll_singleton.2 ⟨b', rfl, hb⟩) h hy.2
    exact ⟨_, _, .whileLoop hc' hb', .skip rfl (hcc.append (.skip rfl (hcb.append
      (.skip rfl (.skip rfl .nil))))), h₁⟩
  | forLoop hi hc _ _ ihb ihs =>
    -- the generator visits the body in front of the step
    intro ss' own own' Γ' hr h hy
    obtain ⟨_, rfl, rfl, init', step', b', own₁, rfl, hri, -, own₂, own₃, hrb, hrs⟩ :=
      renamesAll_singleton.1 hr
    simp only [namesAll_singleton, Stmt.names, List.mem_append, not_or, namesOption_eq] at hy ihb
    obtain ⟨⟨⟨hyi, hyc⟩, hys⟩, hyb⟩ := hy
    obtain ⟨ci', Γ₁', hi', hci, h₁⟩ := hi.renames hri h.push hyi
    obtain ⟨cc', hc', hcc⟩ := hc.renames h₁ hyc
    obtain ⟨cb', Γ₂', hb', hcb, h₂⟩ := ihb (renamesAll_singleton.2 ⟨b', rfl, hrb⟩) h₁ hyb
    obtain ⟨cs', Γ₃', hs', hcs, -⟩ := ihs (renamesAll_toList hrs) h₂ hys
    exact ⟨_, _, .forLoop hi' hc' hb' hs', hci.append (.skip rfl (hcc.append (hcb.append
      (hcs.append (.skip rfl (.skip rfl .nil)))))), h⟩
  | block _ ih =>
    intro ss' own own' Γ' hr h hy
    obtain ⟨_, rfl, rfl, ss', own₁, rfl, hss⟩ := renamesAll_singleton.1 hr
    rw [namesAll_singleton] at hy
    obtain ⟨c', Γ₁', he', hc, -⟩ := ih hss h.push hy
    exact ⟨_, _, .block he', hc, h⟩

/-! ## Linking -/

namespace Code.Renames

variable {x y : String} {c c' : List Instr}

theorem defineLabels (h : Code.Renames x y c c') (table : List (String × Nat)) (k : Nat) :
    Code.defineLabels table k c' = Code.defineLabels table k c := by
  induction h generalizing table k with
  | nil => rfl
  | @keep i _ _ _ _ ih => simp only [Code.defineLabels, ih]
  | own hop _ ih => rcases hop with rfl | rfl <;> simp only [Code.defineLabels, Instr.label?, ih]

theorem checkTargets (h : Code.Renames x y c c') (table : List (String × Nat)) (k : Nat) :
    Code.checkTargets table k c' = Code.checkTargets table k c := by
  induction h generalizing k with
  | nil => rfl
  | @keep i _ _ _ _ ih => simp only [Code.checkTargets, ih]
  | own hop _ ih => rcases hop with rfl | rfl <;> simp only [Code.checkTargets, Instr.target?, ih]

/-- Renamed code links to the same labels. -/
theorem link (h : Code.Renames x y c c') {p : Linked} (hp : Code.link c = .ok p) :
    Code.link c' = .ok ⟨c'.toArray, p.labels⟩ := by
  obtain ⟨table, hd, hc, rfl⟩ := Code.link_eq_ok_iff.1 hp
  exact Code.link_eq_ok_iff.2
    ⟨table, by rw [h.defineLabels, hd], by rw [h.checkTargets, hc], rfl⟩

/-- At each index stand two instructions that differ at most in the name. -/
theorem getElem? {code code' : List Instr} (h : Code.Renames x y code code') (k : Nat) :
    code'[k]? = code[k]? ∧ (∀ i, code[k]? = some i → i.cell? ≠ some y) ∨
      ∃ op, (op = Named.load ∨ op = .save) ∧ code[k]? = some (.named op x) ∧
        code'[k]? = some (.named op y) := by
  induction h generalizing k with
  | nil => exact .inl ⟨rfl, nofun⟩
  | keep hi _ ih =>
    cases k with
    | zero => exact .inl ⟨rfl, fun j hj => by obtain rfl := Option.some.inj hj; exact hi⟩
    | succ k => simpa using ih k
  | own hop _ ih =>
    cases k with
    | zero => exact .inr ⟨_, hop, rfl, rfl⟩
    | succ k => simpa using ih k

end Code.Renames

end StackLang
