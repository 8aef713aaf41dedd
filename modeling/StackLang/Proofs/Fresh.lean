/-
  How many labels code takes, and that none is defined twice.

  * Code that is generated without a failure defines two labels for each of its
    branchings: `Expr.Emits.labels`, `Stmt.EmitsAll.labels`;
  * `Gen.Fresh own x`: whether it fails or not, the generator `x` defines no label
    more often than it is in `own` or minted by `x` itself.  A failed generator may
    have minted labels that it did not define, but the next one mints others;
  * `Program.labels_exact`: the labels of a program are those with the first numbers,
    and no sequence of calls of generators, failing ones among them, defines a label
    twice.
-/
import Mathlib.Algebra.GroupWithZero.Nat
import StackLang.Proofs.Generator
import StackLang.Proofs.Label

namespace StackLang

open Gen Code

/-! ## Counting branchings -/

/-- The number of conditional expressions in an expression. -/
def Expr.branchings : Expr → Nat
  | .lit _ _ | .var _ => 0
  | .un _ e | .paren e => e.branchings
  | .bin _ l r => l.branchings + r.branchings
  | .cond c t e => c.branchings + t.branchings + e.branchings + 1

/-- The branchings in the first part of a `for` loop. -/
def ForInit.branchings : Option ForInit → Nat
  | none => 0
  | some (.decl _ _ e) | some (.assign _ e) => e.branchings

mutual

/-- The number of `if`s, loops and conditional expressions in a statement. -/
def Stmt.branchings : Stmt → Nat
  | .decl _ _ | .read _ => 0
  | .assign _ e | .expr e => e.branchings
  | .write es => (es.map Expr.branchings).sum
  | .ifElse c t e => c.branchings + t.branchings + Stmt.branchingsOption e + 1
  | .whileLoop c b => c.branchings + b.branchings + 1
  | .forLoop init c step b => ForInit.branchings init + (c.map Expr.branchings).getD 0 +
      b.branchings + Stmt.branchingsOption step + 1
  | .block ss => Stmt.branchingsAll ss

/-- The branchings in a statement, if there is one. -/
def Stmt.branchingsOption : Option Stmt → Nat
  | none => 0
  | some s => s.branchings

/-- The branchings in statements. -/
def Stmt.branchingsAll : List Stmt → Nat
  | [] => 0
  | s :: ss => s.branchings + Stmt.branchingsAll ss

end

theorem Stmt.branchingsAll_singleton {s : Stmt} : Stmt.branchingsAll [s] = s.branchings := by
  simp [Stmt.branchingsAll]

theorem Stmt.branchingsOption_eq {o : Option Stmt} :
    Stmt.branchingsOption o = Stmt.branchingsAll o.toList := by
  cases o <;> simp [Stmt.branchingsOption, Stmt.branchingsAll]

variable {Γ Γ' : Scopes} {n n' : Nat} {c : List Instr}

/-- An expression takes two labels for each of its branchings. -/
theorem Expr.Emits.labels {e : Expr} (h : e.Emits Γ n c n') : n' = n + 2 * e.branchings := by
  induction h with
  | lit | var => rfl
  | minus _ ih | not _ ih | paren _ ih => exact ih
  | plain _ _ _ ihl ihr | numeric _ _ _ _ ihl ihr | equality _ _ _ _ ihl ihr =>
    simp only [Expr.branchings]; omega
  | cond _ _ _ ihc iht ihe => simp only [Expr.branchings]; omega

theorem Expr.EmitsAll.labels {es : List Expr} (h : Expr.EmitsAll Γ n es c n') :
    n' = n + 2 * (es.map Expr.branchings).sum := by
  induction h with
  | nil => rfl
  | cons he _ ih =>
    have := he.labels
    simp only [List.map_cons, List.sum_cons]; omega

theorem Expr.EmitsStore.labels {x : String} {t : Ty} {e : Expr} (h : e.EmitsStore Γ x t n c n') :
    n' = n + 2 * e.branchings := by
  obtain ⟨he⟩ := h
  exact he.labels

theorem ForInit.Emits.labels {init : Option ForInit} (h : ForInit.Emits Γ n init c Γ' n') :
    n' = n + 2 * ForInit.branchings init := by
  cases h with
  | none => rfl
  | decl he _ => exact he.labels
  | assign _ he => exact he.labels

theorem Expr.EmitsTest.labels {o : Option Expr} {l : String} (h : Expr.EmitsTest Γ l n o c n') :
    n' = n + 2 * (o.map Expr.branchings).getD 0 := by
  cases h with
  | none => rfl
  | some he => exact he.labels

/-- **Statements take two labels for each of their branchings.** -/
theorem Stmt.EmitsAll.labels {ss : List Stmt} (h : Stmt.EmitsAll Γ n ss c Γ' n') :
    n' = n + 2 * Stmt.branchingsAll ss := by
  induction h with
  | nil => rfl
  | cons _ _ ih₁ ih₂ =>
    rw [Stmt.branchingsAll_singleton] at ih₁
    rw [Stmt.branchingsAll]; omega
  | decl | readNil | readCons => rfl
  | assign _ he => rw [Stmt.branchingsAll_singleton]; exact he.labels
  | expr he => rw [Stmt.branchingsAll_singleton]; exact he.labels
  | write hes => rw [Stmt.branchingsAll_singleton]; exact hes.labels
  | ifElse hc _ _ iht ihe =>
    have := hc.labels
    simp only [Stmt.branchingsAll_singleton, Stmt.branchings, Stmt.branchingsOption_eq] at iht ⊢
    omega
  | whileLoop hc _ ih =>
    have := hc.labels
    simp only [Stmt.branchingsAll_singleton, Stmt.branchings] at ih ⊢
    omega
  | forLoop hi hc _ _ ihb ihs =>
    have := hi.labels
    have := hc.labels
    simp only [Stmt.branchingsAll_singleton, Stmt.branchings, Stmt.branchingsOption_eq] at ihb ⊢
    omega
  | block _ ih => rw [Stmt.branchingsAll_singleton]; exact ih

/-! ## Generators that may fail -/

/-- The labels that are minted while their number goes from `n` to `n'`. -/
def minted (n n' : Nat) : List String := (List.range' n (n' - n)).map labelName

theorem minted_append {n n₁ n₂ : Nat} (h₁ : n ≤ n₁) (h₂ : n₁ ≤ n₂) :
    minted n n₁ ++ minted n₁ n₂ = minted n n₂ := by
  rw [minted, minted, ← List.map_append, range'_append_of_le h₁ h₂, minted]

theorem minted_succ (n : Nat) : minted n (n + 1) = [labelName n] := by
  rw [minted, Nat.add_sub_cancel_left]
  rfl

theorem nodup_minted (n n' : Nat) : (minted n n').Nodup :=
  List.Nodup.map_on (fun _ _ _ _ h => labelName_injective h) List.nodup_range'

namespace Gen

variable {α β : Type} {own : List String}

/-- The generator mints labels from the next number on, and defines none more often
    than it is in `own` or minted by it. -/
def Fresh (own : List String) (x : Gen α) : Prop := ∀ g,
  g.labels ≤ (x g).state.labels ∧
    ∀ l, (defs (x g).code).count l ≤ own.count l + (minted g.labels (x g).state.labels).count l

namespace Fresh

/-- A generator without code and labels. -/
theorem silent {x : Gen α} (h : ∀ g, (x g).code = [] ∧ (x g).state.labels = g.labels) :
    Fresh own x := by
  intro g
  obtain ⟨hcode, hlabels⟩ := h g
  exact ⟨Nat.le_of_eq hlabels.symm, by simp [hcode]⟩

theorem declare {x : String} {t : Ty} : Fresh own (declare x t) := by
  refine silent fun g => ?_
  unfold Gen.declare
  split <;> exact ⟨rfl, rfl⟩

/-- An instruction that is no label. -/
theorem emit {i : Instr} (hi : i.label? = none) : Fresh own (emit i) := by
  intro g
  exact ⟨Nat.le_refl _, by simp [Gen.emit, hi]⟩

/-- A label of one's own. -/
theorem emit_label {l : String} : Fresh [l] (Gen.emit (.named .label l)) := by
  intro g
  exact ⟨Nat.le_refl _, by simp [Gen.emit, Instr.label?]⟩

/-- A generator behind one that defines what it mints only.  If the first one
    fails, there is no second one. -/
theorem seq {x : Gen α} {f : α → Gen β} (hx : Fresh [] x) (hf : ∀ a, Fresh own (f a)) :
    Fresh own (x >>= f) := by
  intro g
  obtain ⟨hle, hcount⟩ := hx g
  cases hr : (x g).result with
  | error e =>
    rw [bind_of_error hr]
    refine ⟨hle, fun l => ?_⟩
    have h₁ := hcount l
    rw [List.count_nil, Nat.zero_add] at h₁
    exact Nat.le_trans h₁ (Nat.le_add_left _ _)
  | ok a =>
    obtain ⟨hle', hcount'⟩ := hf a (x g).state
    rw [bind_of_ok hr]
    refine ⟨Nat.le_trans hle hle', fun l => ?_⟩
    have h₁ := hcount l
    have h₂ := hcount' l
    rw [← minted_append hle hle']
    simp only [defs_append, List.count_append, List.count_nil] at h₁ ⊢
    omega

/-- A label of one's own, and what follows it. -/
theorem place {l : String} {f : Unit → Gen β} (hf : Fresh own (f ())) :
    Fresh (l :: own) (Gen.emit (.named .label l) >>= f) := by
  intro g
  obtain ⟨hle, hcount⟩ := hf g
  rw [bind_of_ok rfl]
  refine ⟨hle, fun l' => ?_⟩
  have := hcount l'
  simp only [Gen.emit, defs_append, defs_cons, Instr.label?, defs_nil, Option.toList_some,
    List.count_append, List.count_cons, List.count_nil] at this ⊢
  omega

/-- What follows a new label owns it. -/
theorem newLabel_bind {f : String → Gen β} (hf : ∀ l, Fresh (own ++ [l]) (f l)) :
    Fresh own (newLabel >>= f) := by
  intro g
  rw [Gen.newLabel_bind]
  obtain ⟨hle, hcount⟩ := hf (labelName g.labels) { g with labels := g.labels + 1 }
  have hlt := Nat.le_add_right g.labels 1
  refine ⟨Nat.le_trans hlt hle, fun l => ?_⟩
  have hl := hcount l
  rw [← minted_append hlt hle, minted_succ, List.count_append, ← Nat.add_assoc,
    ← List.count_append]
  exact hl

theorem inScope {x : Gen α} (hx : Fresh own x) : Fresh own (inScope x) :=
  fun g => hx { g with scopes := g.scopes.push }

theorem admits : Admits fun α own (x : Gen α) => Fresh own x where
  silent h := silent fun g => ⟨(h g).1, by rw [(h g).2]⟩
  declare := declare
  emit := emit
  emit_label := emit_label
  place := place
  newLabel_bind := newLabel_bind
  seq := seq
  inScope := inScope

end Fresh

end Gen

/-- **A statement defines no label but those that it mints**, and none of them
    twice, also if it fails. -/
theorem Stmt.fresh_gen (s : Stmt) : Fresh [] s.gen := s.admits_gen Fresh.admits

/-! ## Calls of generators -/

/-- A call of a generator. -/
inductive GenCall where
  | stmt (s : Stmt)
  | expr (e : Expr)
  | label
  deriving Repr

namespace GenCall

/-- The generator that is called. -/
def gen : GenCall → Gen Unit
  | stmt s => s.gen
  | expr e => e.gen
  | label => do let _ ← newLabel

/-- The code of calls in a row, and the state behind them.  A call that fails
    leaves its code, and the next one goes on from its state. -/
def drive : List GenCall → GenState → List Instr × GenState
  | [], g => ([], g)
  | k :: ks, g =>
    let e := k.gen g
    let (code, g') := drive ks e.state
    (e.code ++ code, g')

theorem fresh_gen : ∀ k : GenCall, Fresh [] k.gen
  | stmt s => s.fresh_gen
  | expr e => e.admits_gen Fresh.admits
  | label => .newLabel_bind fun _ => Fresh.admits.pure

/-- Calls in a row define labels that they mint only, each of them at most once. -/
theorem count_drive (ks : List GenCall) (g : GenState) :
    g.labels ≤ (drive ks g).2.labels ∧
      ∀ l, (defs (drive ks g).1).count l ≤ (minted g.labels (drive ks g).2.labels).count l := by
  induction ks generalizing g with
  | nil => exact ⟨Nat.le_refl _, fun _ => Nat.zero_le _⟩
  | cons k ks ih =>
    obtain ⟨hle, hcount⟩ := k.fresh_gen g
    obtain ⟨hle', hcount'⟩ := ih (k.gen g).state
    refine ⟨Nat.le_trans hle hle', fun l => ?_⟩
    have h₁ := hcount l
    have h₂ := hcount' l
    simp only [drive, defs_append, List.count_append, List.count_nil, Nat.zero_add] at h₁ ⊢
    rw [← minted_append hle hle', List.count_append]
    omega

theorem nodup_drive (ks : List GenCall) (g : GenState) : (defs (drive ks g).1).Nodup := by
  refine List.nodup_iff_count_le_one.2 fun l => ?_
  have hcount := (count_drive ks g).2 l
  have honce := List.nodup_iff_count_le_one.1 (nodup_minted g.labels (drive ks g).2.labels) l
  omega

end GenCall

/-- **The labels of a program are those with the first numbers**, two for each of its
    branchings, and all jumps go to them.  Calls of generators in a row, some of
    which may fail, never define a label twice. -/
theorem Program.labels_exact (p : Program) (calls : List GenCall) (g : GenState) :
    (∀ code, p.gen = .ok code →
      (defs code).Perm ((List.range (2 * Stmt.branchingsAll p)).map labelName) ∧
      (defs code).Nodup ∧ (∀ l ∈ jumps code, l ∈ defs code) ∧ ∃ m, Code.link code = .ok m) ∧
    (defs (GenCall.drive calls g).1).Nodup := by
  refine ⟨fun code h => ?_, GenCall.nodup_drive calls g⟩
  obtain ⟨Γ, n, hp⟩ := p.emitsAll_of_gen h
  obtain ⟨-, hdefs, hjumps⟩ := hp.mints
  obtain rfl : n = 2 * Stmt.branchingsAll p := by simpa using hp.labels
  refine ⟨?_, hdefs.nodup_iff.2 (nodup_minted _ _), hjumps, p.link_of_gen h⟩
  rwa [Nat.sub_zero, ← List.range_eq_range'] at hdefs

/-- A loop with a conditional expression in it, and a loop that fails behind its
    first label. -/
theorem Program.labels_exact_after_failure :
    (∃ code, Program.gen [.whileLoop (.var "x") (.expr (.cond (.var "y") (.var "x") (.var "x")))] =
        .ok code ∧ (defs code).Perm ["L0", "L1", "L2", "L3"] ∧ (∃ m, Code.link code = .ok m)) ∧
    ((Stmt.whileLoop (.var "x") (.assign "y" (.var "x"))).gen {}).result =
      .error (.notDeclared "y") ∧
    (defs (GenCall.drive [.stmt (.whileLoop (.var "x") (.assign "y" (.var "x"))), .label,
      .expr (.cond (.var "y") (.var "x") (.var "x"))] {}).1).Nodup := by
  have hgen : Program.gen
      [.whileLoop (.var "x") (.expr (.cond (.var "y") (.var "x") (.var "x")))] =
      .ok [.named .label "L0", .named .load "x", .named .fjmp "L1", .named .load "y",
        .named .fjmp "L2", .named .load "x", .named .jmp "L3", .named .label "L2",
        .named .load "x", .named .label "L3", .plain .pop, .named .jmp "L0",
        .named .label "L1"] := rfl
  obtain ⟨hcode, hcalls⟩ := Program.labels_exact _ [.stmt (.whileLoop (.var "x")
    (.assign "y" (.var "x"))), .label, .expr (.cond (.var "y") (.var "x") (.var "x"))] {}
  obtain ⟨hdefs, -, -, hlink⟩ := hcode _ hgen
  exact ⟨⟨_, hgen, hdefs, hlink⟩, rfl, hcalls⟩

end StackLang
