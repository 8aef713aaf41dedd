/-
  The code of a checked program is well typed.

  A stack has a list of tags as its shape.  `Instr.Takes Δ` says which tags an
  instruction asks for and which it leaves, where `Δ` gives the types of the
  variables.  Nothing is converted on the way: an `itof` stands wherever an int
  meets a float.

  * `Expr.Emits.flows`: the code of an expression without faults pushes a value of
    its static type;
  * `Stmt.EmitsAll.flows`: the code of statements without faults goes from an
    empty stack to an empty stack.  The steps of `for` loops are assignments or
    expressions, since others would be checked in other scopes than they are
    generated in.
-/
import StackLang.Proofs.Checked
import StackLang.Proofs.Flow

namespace StackLang

/-! ## The types of instructions -/

/-- The operands of an operation with a type tag. -/
def Typed.operands (tag : Tag) : Typed → List Tag
  | add | sub | mul | div | lt | gt | eq => [tag, tag]
  | uminus => [tag]
  | read => []

/-- The result of an operation with a type tag. -/
def Typed.result (tag : Tag) : Typed → Tag
  | add | sub | mul | div | uminus | read => tag
  | lt | gt | eq => .bool

/-- The operation is defined for the type. -/
def Typed.Accepts (tag : Tag) : Typed → Prop
  | add | sub | mul | div | uminus | lt | gt => tag = .int ∨ tag = .float
  | eq | read => True

/-- The operands of an operation without a tag that looks at their types. -/
def Plain.operands : Plain → List Tag
  | mod => [.int, .int]
  | concat => [.string, .string]
  | and | or => [.bool, .bool]
  | not => [.bool]
  | itof => [.int]
  | dup | pop => []

/-- The result of an operation without a tag, if it looks at the types of its
    operands. -/
def Plain.result? : Plain → Option Tag
  | mod => some .int
  | concat => some .string
  | and | or | not => some .bool
  | itof => some .float
  | dup | pop => none

/-- The types of the operands that an instruction looks at, the topmost first. -/
def Instr.operands : Instr → List Tag
  | plain op => op.operands
  | typed op tag => op.operands tag
  | named .fjmp _ => [.bool]
  | push _ _ | print _ | named _ _ => []

/-- The tags on the stack before and behind an instruction. -/
inductive Instr.Takes (Δ : List (String × Ty)) : Instr → List Tag → List Tag → Prop
  | push {tag text τ} : Takes Δ (.push tag text) τ (tag :: τ)
  | print {τ₁ τ} : Takes Δ (.print τ₁.length) (τ₁ ++ τ) τ
  | plain {op tag τ} : op.result? = some tag → Takes Δ (.plain op) (op.operands ++ τ) (tag :: τ)
  | pop {tag τ} : Takes Δ (.plain .pop) (tag :: τ) τ
  | typed {op tag τ} : op.Accepts tag →
      Takes Δ (.typed op tag) (op.operands tag ++ τ) (op.result tag :: τ)
  | load {x tag τ} : (x, tag.ty) ∈ Δ → Takes Δ (.named .load x) τ (tag :: τ)
  | save {x tag τ} : (x, tag.ty) ∈ Δ → Takes Δ (.named .save x) (tag :: τ) τ
  | jmp {l τ τ'} : Takes Δ (.named .jmp l) τ τ'
  | fjmp {l τ} : Takes Δ (.named .fjmp l) (.bool :: τ) τ
  | label {l τ} : Takes Δ (.named .label l) τ τ

/-- How instructions change the tags on the stack. -/
def tagEffects (Δ : List (String × Ty)) : Effects (List Tag) where
  Takes := Instr.Takes Δ
  jmp := .jmp
  label := ⟨fun h => by cases h; rfl, fun h => h ▸ .label⟩
  fjmp := by rintro l _ b b' ⟨⟩ ⟨⟩; rfl

/-! ## Expressions -/

variable {Δ : List (String × Ty)} {Γ Γ' : Scopes} {n n' : Nat} {c : List Instr}

/-- The type at which two operands meet. -/
def Tag.meet? : Tag → Tag → Option Tag
  | int, int => some int
  | int, float | float, int | float, float => some float
  | bool, bool => some bool
  | string, string => some string
  | _, _ => none

theorem Tag.meet?_comm (l r : Tag) : l.meet? r = r.meet? l := by
  cases l <;> cases r <;> rfl

theorem Tag.ty_injective {l r : Tag} (h : l.ty = r.ty) : l = r := by
  cases l <;> cases r <;> first | rfl | cases h

/-- An operand is converted to the type at which it meets another one. -/
theorem flows_conversion {l r tag : Tag} {τ : List Tag} (h : l.meet? r = some tag) :
    Flows (tagEffects Δ) (l :: τ) (l.ty.conversion tag.ty) (tag :: τ) := by
  have hitof : Flows (tagEffects Δ) (.int :: τ) [.plain .itof] (.float :: τ) :=
    .instr (Instr.Takes.plain rfl) rfl
  cases l <;> cases r <;> cases h <;> first | exact .nil | exact hitof

/-- It makes no difference if the other operand's type is given instead. -/
theorem conversion_meet {l r tag : Tag} (h : l.meet? r = some tag) :
    l.ty.conversion r.ty = l.ty.conversion tag.ty := by
  cases l <;> cases r <;> cases h <;> rfl

theorem UnOp.minus_sound {t : Tag} (h : UnOp.minus.faults t.ty = []) :
    Typed.uminus.Accepts t ∧ (if t.ty = .int then Tag.int else .float) = t ∧
      UnOp.minus.result t.ty = t.ty := by
  cases t <;> simp_all [UnOp.faults, UnOp.result, Ty.negate, Tag.ty, Ty.isNumeric, Typed.Accepts,
    Ty.isError]

theorem UnOp.not_sound {t : Tag} (h : UnOp.not.faults t.ty = []) : t = .bool := by
  cases t <;> simp_all [UnOp.faults, UnOp.result, Ty.not, Tag.ty, Ty.isError]

theorem BinOp.plain_sound {op : BinOp} {q : Plain} (hop : op.form = .plain q) {l r : Tag}
    (h : op.faults l.ty r.ty = []) : q.operands = [r, l] ∧
      ∃ tag, q.result? = some tag ∧ op.result l.ty r.ty = tag.ty := by
  cases op <;> cases hop <;> cases l <;> cases r <;>
    first | exact ⟨rfl, _, rfl, rfl⟩ | cases h

theorem BinOp.numeric_sound {op : BinOp} {q : Typed} (hop : op.form = .numeric q) {l r : Tag}
    (h : op.faults l.ty r.ty = []) : ∃ tag, l.meet? r = some tag ∧ l.ty.widen r.ty = tag.ty ∧
      q.Accepts tag ∧ q.operands tag = [tag, tag] ∧ op.result l.ty r.ty = (q.result tag).ty := by
  cases op <;> cases hop <;> cases l <;> cases r <;>
    first | exact ⟨_, rfl, rfl, by simp [Typed.Accepts], rfl, rfl⟩ | cases h

theorem BinOp.equality_sound {op : BinOp} {neg : Bool} (hop : op.form = .equality neg) {l r : Tag}
    (h : op.faults l.ty r.ty = []) : ∃ tag, l.meet? r = some tag ∧
      l.ty.equalityType r.ty = tag.ty ∧ op.result l.ty r.ty = .bool := by
  cases op <;> cases hop <;> cases l <;> cases r <;> first | exact ⟨_, rfl, rfl, rfl⟩ | cases h

theorem branch_sound {l r : Tag} (h : branchFaults l.ty r.ty = []) :
    ∃ tag, l.meet? r = some tag ∧ l.ty.join r.ty = tag.ty := by
  cases l <;> cases r <;> first | exact ⟨_, rfl, rfl⟩ | cases h

theorem condition_sound {c : Construct} {t : Tag} (h : conditionFaults c t.ty = []) :
    t = .bool := by
  cases t <;> first | rfl | cases h

/-- **The code of an expression without faults pushes a value of its type.** -/
theorem Expr.Emits.flows (hΔ : Uniform Δ) (hΓ : Γ.From Δ) {e : Expr} (h : e.Emits Γ n c n') :
    e.faults Γ = [] → ∀ {tag : Tag} {τ : List Tag}, e.typeOf Γ = tag.ty →
      Flows (tagEffects Δ) τ c (tag :: τ) := by
  have hproper := hΔ.ne_error hΓ
  induction h with
  | @lit n tag' text =>
    intro _ tag τ ht
    obtain rfl : tag' = tag := Tag.ty_injective ht
    exact .instr Instr.Takes.push rfl
  | @var n x =>
    intro he tag τ ht
    obtain ⟨t, hx⟩ := faults_var.1 he
    obtain rfl : t = tag.ty := by simpa [typeOf, hx] using ht
    exact .instr (Instr.Takes.load (hΓ x _ hx)) rfl
  | @minus n e c n' _ ih =>
    intro hf tag τ ht
    obtain ⟨he, hop⟩ := faults_un.1 hf
    obtain ⟨te, hte⟩ := exists_tag hproper he
    simp only [typeOf, hte] at hop ht ⊢
    obtain ⟨hacc, htag, hres⟩ := UnOp.minus_sound hop
    obtain rfl : te = tag := Tag.ty_injective (hres.symm.trans ht)
    rw [htag]
    exact .append (ih he hte) (.instr (Instr.Takes.typed hacc) rfl)
  | @not n e c n' _ ih =>
    intro hf tag τ ht
    obtain ⟨he, hop⟩ := faults_un.1 hf
    obtain ⟨te, hte⟩ := exists_tag hproper he
    simp only [typeOf, hte] at hop ht
    obtain rfl := UnOp.not_sound hop
    obtain rfl : Tag.bool = tag := Tag.ty_injective ht
    exact .append (ih he hte) (.instr (Instr.Takes.plain rfl) rfl)
  | @plain n op q l cl n₁ r cr n₂ hform _ _ ihl ihr =>
    intro hf tag τ ht
    obtain ⟨hl, hr, hop⟩ := faults_bin.1 hf
    obtain ⟨tl, htl⟩ := exists_tag hproper hl
    obtain ⟨tr, htr⟩ := exists_tag hproper hr
    simp only [typeOf, htl, htr] at hop ht
    obtain ⟨hops, tag', hq, hres⟩ := BinOp.plain_sound hform hop
    obtain rfl : tag' = tag := Tag.ty_injective (hres.symm.trans ht)
    have hi := Instr.Takes.plain (Δ := Δ) (τ := τ) hq
    rw [hops] at hi
    exact .append (.append (ihl hl htl) (ihr hr htr)) (.instr hi rfl)
  | @numeric n op q l cl n₁ r cr n₂ t hform _ _ hwiden ihl ihr =>
    intro hf tag τ ht
    obtain ⟨hl, hr, hop⟩ := faults_bin.1 hf
    obtain ⟨tl, htl⟩ := exists_tag hproper hl
    obtain ⟨tr, htr⟩ := exists_tag hproper hr
    simp only [typeOf, htl, htr] at hop ht hwiden ⊢
    obtain ⟨t', hmeet, hw, hacc, hops, hres⟩ := BinOp.numeric_sound hform hop
    obtain rfl : t' = t := by simpa [hw] using hwiden
    obtain rfl : q.result t' = tag := Tag.ty_injective (hres.symm.trans ht)
    have hi := Instr.Takes.typed (Δ := Δ) (τ := τ) hacc
    rw [hops] at hi
    have hmeet' := (Tag.meet?_comm tr tl).trans hmeet
    rw [conversion_meet hmeet, conversion_meet hmeet']
    exact .append (.append (.append (ihl hl htl) (flows_conversion hmeet))
      (.append (ihr hr htr) (flows_conversion hmeet'))) (.instr hi rfl)
  | @equality n op neg l cl n₁ r cr n₂ t hform _ _ heq ihl ihr =>
    intro hf tag τ ht
    obtain ⟨hl, hr, hop⟩ := faults_bin.1 hf
    obtain ⟨tl, htl⟩ := exists_tag hproper hl
    obtain ⟨tr, htr⟩ := exists_tag hproper hr
    simp only [typeOf, htl, htr] at hop ht heq ⊢
    obtain ⟨t', hmeet, he, hres⟩ := BinOp.equality_sound hform hop
    obtain rfl : t' = t := by simpa [he] using heq
    obtain rfl : Tag.bool = tag := Tag.ty_injective (hres.symm.trans ht)
    have hmeet' := (Tag.meet?_comm tr tl).trans hmeet
    rw [conversion_meet hmeet, conversion_meet hmeet']
    refine .append (.append (.append (ihl hl htl) (flows_conversion hmeet))
      (.append (ihr hr htr) (flows_conversion hmeet'))) ?_
    have hi : Flows (tagEffects Δ) (t' :: t' :: τ) [.typed .eq t'] (.bool :: τ) :=
      .instr (Instr.Takes.typed (show Typed.eq.Accepts t' from trivial)) rfl
    cases neg with
    | false => exact hi
    | true => exact hi.append (.instr (Instr.Takes.plain rfl) rfl)
  | @cond n c cc n₁ t ct n₂ e ce n₃ _ _ _ ihc iht ihe =>
    intro hf tag τ ht
    obtain ⟨hc, hcond, ht', he, hb⟩ := faults_cond.1 hf
    obtain ⟨tc, htc⟩ := exists_tag hproper hc
    obtain ⟨tt, htt⟩ := exists_tag hproper ht'
    obtain ⟨te, hte⟩ := exists_tag hproper he
    simp only [typeOf, htc, htt, hte] at hcond hb ht ⊢
    obtain rfl := condition_sound hcond
    obtain ⟨t', hmeet, hjoin⟩ := branch_sound hb
    obtain rfl : t' = tag := Tag.ty_injective (hjoin.symm.trans ht)
    have hmeet' := (Tag.meet?_comm te tt).trans hmeet
    rw [hjoin]
    exact .branch (ihc hc htc) Instr.Takes.fjmp (.append (iht ht' htt) (flows_conversion hmeet))
      (.append (ihe he hte) (flows_conversion hmeet'))
  | paren _ ih => exact ih

theorem Expr.EmitsAll.flows (hΔ : Uniform Δ) (hΓ : Γ.From Δ) {es : List Expr}
    (h : Expr.EmitsAll Γ n es c n') : es.flatMap (·.faults Γ) = [] → ∀ {τ : List Tag},
      ∃ τ', τ'.length = es.length ∧ Flows (tagEffects Δ) τ c (τ' ++ τ) := by
  induction h with
  | nil => exact fun _ τ => ⟨[], rfl, .nil⟩
  | cons he _ ih =>
    intro hf τ
    obtain ⟨hf₁, hf₂⟩ := List.append_eq_nil_iff.1 hf
    obtain ⟨tag, ht⟩ := exists_tag (hΔ.ne_error hΓ) hf₁
    obtain ⟨τ', hlen, hflow⟩ := ih hf₂ (τ := tag :: τ)
    exact ⟨τ' ++ [tag], by simp [hlen], by simpa using (he.flows hΔ hΓ hf₁ ht).append hflow⟩

/-! ## Statements -/

/-- The step of a loop is missing, an assignment or an expression. -/
def isPlainStep : Option Stmt → Bool
  | none | some (.assign _ _) | some (.expr _) => true
  | some _ => false

mutual

/-- The steps of all `for` loops in a statement are assignments or
    expressions. -/
def Stmt.plainSteps : Stmt → Bool
  | .ifElse _ t e => t.plainSteps && Stmt.plainStepsOption e
  | .whileLoop _ b => b.plainSteps
  | .forLoop _ _ step b => isPlainStep step && b.plainSteps
  | .block ss => Stmt.plainStepsAll ss
  | .decl _ _ | .assign _ _ | .expr _ | .write _ | .read _ => true

/-- The steps of all `for` loops in a statement, if there is one. -/
def Stmt.plainStepsOption : Option Stmt → Bool
  | none => true
  | some s => s.plainSteps

/-- The steps of all `for` loops in statements. -/
def Stmt.plainStepsAll : List Stmt → Bool
  | [] => true
  | s :: ss => s.plainSteps && Stmt.plainStepsAll ss

end

theorem Stmt.plainStepsAll_singleton {s : Stmt} : Stmt.plainStepsAll [s] = s.plainSteps := by
  simp [Stmt.plainStepsAll]

theorem Stmt.plainStepsOption_eq {o : Option Stmt} :
    Stmt.plainStepsOption o = Stmt.plainStepsAll o.toList := by
  cases o <;> simp [Stmt.plainStepsOption, Stmt.plainStepsAll]

/-- A step that is checked in some scopes is also in order in larger ones, and
    declares nothing. -/
theorem isPlainStep.of_le {o : Option Stmt} (ho : isPlainStep o = true) (h : Γ.Le Γ')
    (hf : (Stmt.checkOption Γ o).2 = []) : (Stmt.checkAll Γ' o.toList).2 = [] ∧
      Stmt.afterOption Γ o = Γ ∧ Stmt.plainStepsAll o.toList = true := by
  rcases o with _ | _ | ⟨x, e⟩ | e | _ | _ | _ | _ | _ | _
  case none => exact ⟨rfl, rfl, rfl⟩
  case some.assign =>
    obtain ⟨he, t, hx, hs⟩ := Scopes.checkAssign_eq_nil.1 hf
    refine ⟨?_, rfl, rfl⟩
    refine Stmt.checkAll_singleton_snd.trans (Scopes.checkAssign_eq_nil.2 ⟨?_, t, h x t hx, ?_⟩)
    · exact Expr.faults_of_le h he
    · rwa [Expr.typeOf_of_le h he]
  case some.expr =>
    exact ⟨Stmt.checkAll_singleton_snd.trans (Expr.faults_of_le h hf), rfl, rfl⟩
  all_goals cases ho

theorem store_sound {x : String} {t te : Tag} (h : storeFaults x t.ty te.ty = []) :
    te.meet? t = some t := by
  cases te <;> cases t <;> first | rfl | cases h

theorem Uniform.exists_tag (hΔ : Uniform Δ) {x : String} {t : Ty} (h : (x, t) ∈ Δ) :
    ∃ tag : Tag, t = tag.ty := Ty.exists_tag (hΔ (x, t) h).1

theorem Expr.EmitsStore.flows (hΔ : Uniform Δ) (hΓ : Γ.From Δ) {x : String} {t : Ty} {e : Expr}
    (h : e.EmitsStore Γ x t n c n') (hx : (x, t) ∈ Δ) (he : e.faults Γ = [])
    (hs : storeFaults x t (e.typeOf Γ) = []) : Flows (tagEffects Δ) [] c [] := by
  obtain ⟨hc⟩ := h
  obtain ⟨tag, rfl⟩ := hΔ.exists_tag hx
  obtain ⟨te, hte⟩ := exists_tag (hΔ.ne_error hΓ) he
  rw [hte] at hs ⊢
  exact .append (.append (hc.flows hΔ hΓ he hte) (flows_conversion (store_sound hs)))
    (.instr (Instr.Takes.save hx) rfl)

theorem ForInit.Emits.flows (hΔ : Uniform Δ) (hΓ : Γ.From Δ) {init : Option ForInit}
    (h : ForInit.Emits Γ n init c Γ' n') (hd : ForInit.decls init ⊆ Δ)
    (hf : (ForInit.checkOption Γ init).2 = []) : Flows (tagEffects Δ) [] c [] := by
  cases h with
  | none => exact .nil
  | @decl t x e _ _ _ he _ =>
    simp only [ForInit.checkOption, ForInit.check, e.check_fst, List.append_eq_nil_iff] at hf
    exact he.flows hΔ hΓ (hd (List.mem_singleton_self _)) hf.1.1 hf.1.2
  | @assign x t e _ _ hx he =>
    obtain ⟨hfe, t', hx', hs⟩ := Scopes.checkAssign_eq_nil.1 hf
    obtain rfl : t = t' := Option.some.inj (hx.symm.trans hx')
    exact he.flows hΔ hΓ (hΓ x t hx) hfe hs

/-- A condition without faults pushes a bool. -/
theorem Expr.Emits.flows_condition (hΔ : Uniform Δ) (hΓ : Γ.From Δ) {e : Expr} {k : Construct}
    (h : e.Emits Γ n c n') (hf : e.checkCondition Γ k = []) {τ : List Tag} :
    Flows (tagEffects Δ) τ c (.bool :: τ) := by
  obtain ⟨hfe, hcond⟩ := checkCondition_eq_nil.1 hf
  obtain ⟨tag, ht⟩ := exists_tag (hΔ.ne_error hΓ) hfe
  rw [ht] at hcond
  obtain rfl := condition_sound hcond
  exact h.flows hΔ hΓ hfe ht

theorem Expr.EmitsTest.flows (hΔ : Uniform Δ) (hΓ : Γ.From Δ) {o : Option Expr} {l : String}
    (h : Expr.EmitsTest Γ l n o c n')
    (hf : (o.map (·.checkCondition Γ .forLoop)).getD [] = []) : Tests (tagEffects Δ) [] c l := by
  cases h with
  | none => exact .nil
  | some he => exact .fjmp (he.flows_condition hΔ hΓ hf) Instr.Takes.fjmp

/-- **The code of statements without faults goes from an empty stack to an empty
    stack.** -/
theorem Stmt.EmitsAll.flows (hΔ : Uniform Δ) {ss : List Stmt} (h : Stmt.EmitsAll Γ n ss c Γ' n') :
    Γ.From Δ → Stmt.declsAll ss ⊆ Δ → Stmt.plainStepsAll ss = true →
      (Stmt.checkAll Γ ss).2 = [] → Flows (tagEffects Δ) [] c [] := by
  induction h with
  | nil | decl | readNil => intros; exact .nil
  | @cons Γ n s c₁ Γ₁ n₁ ss c₂ Γ₂ n₂ h₁ h₂ ih₁ ih₂ =>
    intro hΓ hd hp hf
    simp only [Stmt.declsAll, List.append_subset] at hd
    simp only [Stmt.plainStepsAll, Bool.and_eq_true] at hp
    rw [Stmt.checkAll_cons_snd, List.append_eq_nil_iff, show s.after Γ = Γ₁ from h₁.after] at hf
    rw [Stmt.declsAll_singleton, Stmt.plainStepsAll_singleton, Stmt.checkAll_singleton_snd] at ih₁
    have hΓ₁ := h₁.from hΓ (by rw [Stmt.declsAll_singleton]; exact hd.1)
    exact .append (ih₁ hΓ hd.1 hp.1 hf.1) (ih₂ hΓ₁ hd.2 hp.2 hf.2)
  | @assign Γ n x t e c n' hx he =>
    intro hΓ _ _ hf
    rw [Stmt.checkAll_singleton_snd] at hf
    obtain ⟨hfe, t', hx', hs⟩ := Scopes.checkAssign_eq_nil.1 hf
    obtain rfl : t = t' := Option.some.inj (hx.symm.trans hx')
    exact he.flows hΔ hΓ (hΓ x t hx) hfe hs
  | expr he =>
    intro hΓ _ _ hf
    rw [Stmt.checkAll_singleton_snd] at hf
    obtain ⟨tag, ht⟩ := Expr.exists_tag (hΔ.ne_error hΓ) hf
    exact .append (he.flows hΔ hΓ hf ht) (.instr Instr.Takes.pop rfl)
  | write hes =>
    intro hΓ _ _ hf
    rw [Stmt.checkAll_singleton_snd] at hf
    obtain ⟨τ, hlen, hflow⟩ := hes.flows hΔ hΓ hf (τ := [])
    rw [← hlen]
    exact .append hflow (.instr Instr.Takes.print rfl)
  | @readCons Γ n x t tag xs c hx ht _ ih =>
    intro hΓ hd hp hf
    rw [Stmt.checkAll_singleton_snd, Stmt.check, List.flatMap_cons, List.append_eq_nil_iff] at hf
    rw [Stmt.checkAll_singleton_snd] at ih
    obtain ⟨tag', rfl⟩ := hΔ.exists_tag (hΓ x t hx)
    obtain rfl : tag' = tag := by simpa using ht
    have hread : Flows (tagEffects Δ) [] [.typed .read tag'] [tag'] :=
      .instr (Instr.Takes.typed (show Typed.read.Accepts tag' from trivial)) rfl
    have hsave : Flows (tagEffects Δ) [tag'] [.named .save x] [] :=
      .instr (Instr.Takes.save (hΓ x _ hx)) rfl
    exact hread.append (hsave.append (ih hΓ hd hp hf.2))
  | @ifElse Γ n c cc n₁ t ct Γ₁ n₂ e ce Γ₂ n₃ hc ht he iht ihe =>
    intro hΓ hd hp hf
    simp only [Stmt.declsAll_singleton, Stmt.decls, Stmt.declsOption_eq, List.append_subset] at hd
    simp only [Stmt.plainStepsAll_singleton, Stmt.plainSteps, Stmt.plainStepsOption_eq,
      Bool.and_eq_true] at hp
    simp only [Stmt.checkAll_singleton_snd, Stmt.check, Stmt.checkOption_snd, t.check_fst,
      show t.after Γ = Γ₁ from ht.after, List.append_eq_nil_iff] at hf
    rw [Stmt.declsAll_singleton, Stmt.plainStepsAll_singleton, Stmt.checkAll_singleton_snd] at iht
    have hΓ₁ := ht.from hΓ (by rw [Stmt.declsAll_singleton]; exact hd.1)
    exact .branch (hc.flows_condition hΔ hΓ hf.1.1) Instr.Takes.fjmp (iht hΓ hd.1 hp.1 hf.1.2)
      (ihe hΓ₁ hd.2 hp.2 hf.2)
  | @whileLoop Γ n c cc n₁ b cb Γ₁ n₂ hc _ ih =>
    intro hΓ hd hp hf
    simp only [Stmt.declsAll_singleton, Stmt.plainStepsAll_singleton] at hd hp ih
    rw [Stmt.checkAll_singleton_snd] at hf ih
    simp only [Stmt.check, List.append_eq_nil_iff] at hf
    have htest : Tests (tagEffects Δ) [] (cc ++ [.named .fjmp (labelName (n + 1))]) _ :=
      .fjmp (hc.flows_condition hΔ hΓ hf.1) Instr.Takes.fjmp
    simpa using Flows.loop (l := labelName n) htest (ih hΓ hd hp hf.2)
  | @forLoop Γ n init ci Γ₁ n₁ c cc n₂ b cb Γ₂ n₃ step cs Γ₃ n₄ hi hc hb hs ihb ihs =>
    intro hΓ hd hp hf
    simp only [Stmt.declsAll_singleton, Stmt.decls, Stmt.declsOption_eq, List.append_subset] at hd
    simp only [Stmt.plainStepsAll_singleton, Stmt.plainSteps, Bool.and_eq_true] at hp
    simp only [Stmt.checkAll_singleton_snd, Stmt.check, ForInit.check_fst, hi.after,
      List.append_eq_nil_iff] at hf
    rw [Stmt.declsAll_singleton, Stmt.plainStepsAll_singleton, Stmt.checkAll_singleton_snd] at ihb
    have hpush : Γ.push.From Δ := hΓ
    have hΓ₁ := hi.from hpush hd.1.1
    have hle := hb.le hΔ hΓ₁ (by rw [Stmt.declsAll_singleton]; exact hd.2)
    have hΓ₂ := hb.from hΓ₁ (by rw [Stmt.declsAll_singleton]; exact hd.2)
    -- the step was checked in front of the body, in smaller scopes
    obtain ⟨hfs, hafter, hps⟩ := isPlainStep.of_le hp.1 hle hf.1.2
    rw [Stmt.checkOption_fst, hafter] at hf
    have hbody := (ihb hΓ₁ hd.2 hp.2 hf.2).append (ihs hΓ₂ hd.1.2 hps hfs)
    have hloop := Flows.loop (l := labelName n₁) (hc.flows hΔ hΓ₁ hf.1.1.2) hbody
    exact .append (hi.flows hΔ hpush hd.1.1 hf.1.1.1) (by simpa using hloop)
  | @block Γ n ss c Γ' n' _ ih =>
    intro hΓ hd hp hf
    rw [Stmt.declsAll_singleton] at hd
    rw [Stmt.plainStepsAll_singleton] at hp
    rw [Stmt.checkAll_singleton_snd] at hf
    exact ih hΓ hd hp hf

end StackLang
