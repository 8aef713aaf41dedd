/-
  Scopes are balanced, also behind a failure.

  * `Scopes.Extends Γ Γ'`: the scopes around the current one are the same, and the
    current one has only gained names that were new to it;
  * `Gen.Balanced x`: the generator `x` extends the scopes, whether it fails or not.
    A generator in a scope of its own leaves no trace (`Gen.Balanced.inScope`);
  * `Stmt.scopes_balanced`: generator and checker only extend the scopes, mint labels
    and append code and faults.
-/
import StackLang.Proofs.Checked
import StackLang.Proofs.Fresh

namespace StackLang

/-! ## Extending scopes -/

/-- The scopes are as before but for names that are new in the current one. -/
structure Scopes.Extends (Γ Γ' : Scopes) : Prop where
  outer : Γ'.outer = Γ.outer
  gained : ∃ new, Γ'.current.bindings = new ++ Γ.current.bindings ∧
    ∀ b ∈ new, Γ.current.get? b.1 = none

namespace Scopes.Extends

variable {Γ Γ₁ Γ₂ : Scopes}

@[refl] theorem refl (Γ : Scopes) : Γ.Extends Γ := ⟨rfl, [], rfl, by simp⟩

/-- No type of the current scope changes. -/
theorem kept (h : Γ.Extends Γ₁) {x : String} {t : Ty} (hx : Γ.current.get? x = some t) :
    Γ₁.current.get? x = some t := by
  obtain ⟨new, hbindings, hnew⟩ := h.gained
  have hnone : new.lookup x = none := by
    refine List.lookup_eq_none_iff.2 fun b hb => ?_
    refine bne_iff_ne.2 ?_
    rintro rfl
    rw [hnew b hb] at hx
    cases hx
  rw [Scope.get?, hbindings, List.lookup_append, hnone]
  exact hx

@[trans] theorem trans (h₁ : Γ.Extends Γ₁) (h₂ : Γ₁.Extends Γ₂) : Γ.Extends Γ₂ := by
  obtain ⟨new₁, hb₁, hnew₁⟩ := h₁.gained
  obtain ⟨new₂, hb₂, hnew₂⟩ := h₂.gained
  refine ⟨h₂.outer.trans h₁.outer, new₂ ++ new₁, by rw [hb₂, hb₁, List.append_assoc], ?_⟩
  rintro b hb
  rcases List.mem_append.1 hb with hb | hb
  · -- a name that is new behind the first extension was new before it
    cases hx : Γ.current.get? b.1 with
    | none => rfl
    | some t => rw [← hnew₂ b hb, h₁.kept hx]
  · exact hnew₁ b hb

theorem depth (h : Γ.Extends Γ₁) : Γ₁.depth = Γ.depth := by
  rw [Scopes.depth, Scopes.depth, h.outer]

/-- The scope that was opened for the extension is closed again. -/
theorem pop (h : Γ.push.Extends Γ₁) : Γ₁.pop = Γ := pop_of_outer h.outer

theorem declare {x : String} {t : Ty} (h : Γ.declare x t = .ok Γ₁) : Γ.Extends Γ₁ := by
  obtain ⟨hx, rfl⟩ := declare_eq_ok.1 h
  exact ⟨rfl, [(x, t)], rfl, by simpa using hx⟩

theorem checkDeclare {x : String} {t : Ty} : Γ.Extends (Γ.checkDeclare x t).1 := by
  unfold Scopes.checkDeclare
  cases h : Γ.declare x t with
  | ok Γ' => exact declare h
  | error f => exact refl Γ

theorem checkDeclareAll {t : Ty} : ∀ (xs : List String) {Γ : Scopes},
    Γ.Extends (Γ.checkDeclareAll t xs).1
  | [], Γ => refl Γ
  | _ :: xs, _ => checkDeclare.trans (checkDeclareAll xs)

end Scopes.Extends

/-! ## Generators -/

namespace Gen

variable {α β : Type}

/-- The generator extends the scopes, also if it fails. -/
def Balanced (x : Gen α) : Prop := ∀ g : GenState, g.scopes.Extends (x g).state.scopes

namespace Balanced

/-- A generator that declares nothing. -/
theorem still {x : Gen α} (h : ∀ g, (x g).state.scopes = g.scopes) : Balanced x := by
  intro g
  rw [h g]

theorem declare {x : String} {t : Ty} : Balanced (declare x t) := by
  intro g
  unfold Gen.declare
  cases h : g.scopes.declare x t with
  | ok Γ => exact .declare h
  | error f => exact .refl _

/-- If the first generator fails, there is no second one. -/
theorem seq {x : Gen α} {f : α → Gen β} (hx : Balanced x) (hf : ∀ a, Balanced (f a)) :
    Balanced (x >>= f) := by
  intro g
  cases hr : (x g).result with
  | error e => rw [bind_of_error hr]; exact hx g
  | ok a => rw [bind_of_ok hr]; exact (hx g).trans (hf a _)

/-- The scope is closed also behind a failure. -/
theorem inScope {x : Gen α} (hx : Balanced x) : Balanced (inScope x) :=
  still fun g => (hx { g with scopes := g.scopes.push }).pop

theorem admits : Admits fun α _ (x : Gen α) => Balanced x where
  silent h := still fun g => by rw [(h g).2]
  declare := declare
  emit _ := still fun _ => rfl
  emit_label := still fun _ => rfl
  place hf := seq (still fun _ => rfl) fun _ => hf
  newLabel_bind hf := seq (still fun _ => rfl) hf
  seq := seq
  inScope := inScope

end Balanced

end Gen

/-- Calls that follow others append their code. -/
theorem GenCall.drive_append (ks ks' : List GenCall) (g : GenState) :
    drive (ks ++ ks') g = ((drive ks g).1 ++ (drive ks' (drive ks g).2).1,
      (drive ks' (drive ks g).2).2) := by
  induction ks generalizing g with
  | nil => rfl
  | cons k ks ih => simp only [List.cons_append, drive, ih, List.append_assoc]

theorem GenCall.drive_concat (ks : List GenCall) (s : Stmt) (g : GenState) :
    drive (ks ++ [.stmt s]) g =
      ((drive ks g).1 ++ (s.gen (drive ks g).2).code, (s.gen (drive ks g).2).state) := by
  simp only [drive_append, drive, GenCall.gen, List.append_nil]

/-! ## The checker -/

mutual

theorem Stmt.extends_after : ∀ (s : Stmt) {Γ : Scopes}, Γ.Extends (s.after Γ)
  | .decl _ xs, _ => .checkDeclareAll xs
  | .ifElse _ t e, _ => t.extends_after.trans (Stmt.extends_afterOption e)
  | .whileLoop _ b, _ => b.extends_after
  | .assign _ _, Γ | .expr _, Γ | .write _, Γ | .read _, Γ | .forLoop _ _ _ _, Γ
  | .block _, Γ => .refl Γ

theorem Stmt.extends_afterOption : ∀ (o : Option Stmt) {Γ : Scopes},
    Γ.Extends (Stmt.afterOption Γ o)
  | none, Γ => .refl Γ
  | some s, _ => s.extends_after

end

/-- **Scopes are balanced on every path.**  Generating or checking a statement, with or
    without failures in it, keeps the number of open scopes and all of them but the
    current one, which only gains names that are new to it.  Labels are only minted, and
    the check of a program ends in the global scope.  That code and faults are appended
    to those of the calls before is `GenCall.drive_concat` and `Stmt.checkAll_concat`. -/
theorem Stmt.scopes_balanced (s : Stmt) :
    (∀ g : GenState, let g' := (s.gen g).state
      g'.scopes.depth = g.scopes.depth ∧ g.scopes.Extends g'.scopes ∧ g.labels ≤ g'.labels) ∧
    (∀ (calls : List GenCall) (g₀ : GenState), let (buffer, g) := GenCall.drive calls g₀
      GenCall.drive (calls ++ [.stmt s]) g₀ = (buffer ++ (s.gen g).code, (s.gen g).state)) ∧
    (∀ Γ : Scopes, let Γ' := (s.check Γ).1
      Γ'.depth = Γ.depth ∧ Γ.Extends Γ') ∧
    (∀ (before : List Stmt) (Γ₀ : Scopes), let (Γ, faults) := Stmt.checkAll Γ₀ before
      Stmt.checkAll Γ₀ (before ++ [s]) = ((s.check Γ).1, faults ++ (s.check Γ).2)) ∧
    ∀ p : Program, p.check.1.depth = 1 := by
  refine ⟨fun g => ?_, fun calls g₀ => ?_, fun Γ => ?_, fun before Γ₀ => ?_, fun p => ?_⟩
  · have hscopes : g.scopes.Extends (s.gen g).state.scopes := s.admits_gen Gen.Balanced.admits g
    exact ⟨hscopes.depth, hscopes, (s.fresh_gen g).1⟩
  · exact GenCall.drive_concat calls s g₀
  · have hscopes : Γ.Extends (s.check Γ).1 := s.check_fst ▸ s.extends_after
    exact ⟨hscopes.depth, hscopes⟩
  · exact Stmt.checkAll_concat
  · rw [Scopes.depth, Program.check, Stmt.checkAll_outer]
    rfl

/-- A loop in a block that fails behind declarations of its own. -/
example :
    let s : Stmt := .block [.decl .int ["x"], .whileLoop (.var "x") (.block [.decl .int ["y", "y"]])]
    (s.gen {}).result = .error (.alreadyDeclared "y") ∧ (s.gen {}).state = { labels := 2 } := by
  decide

end StackLang
