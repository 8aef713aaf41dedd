/-
  A fault in one expression leaves the rest of a check alone.

  * `Stmt.visits Γ s` lists what the checker does in a statement, step by step and each
    step with the scopes in which it is done.  The faults of a statement are those of its
    visits (`Stmt.check_eq_visits`);
  * a `Gap` is a statement without one of its expressions, at any depth, and `Gap.fill`
    puts an expression there.  Its `Clause` says what the statement asks of the value;
  * `Program.recovery_local`: whatever is put into a gap, only the one visit of the gap
    depends on it.
-/
import StackLang.Proofs.Checked

namespace StackLang

/-! ## Visits -/

/-- What a statement does with the value of an expression in it. -/
inductive Clause where
  /-- prints it, or drops it -/
  | value
  | store (x : String)
  /-- gives it to a new variable of a loop -/
  | first (t : Ty) (x : String)
  | test (construct : Construct)
  deriving DecidableEq, Repr

/-- The faults of a value of the type `t` that the clause finds. -/
def Clause.faults (Γ : Scopes) (t : Ty) : Clause → List Fault
  | value => []
  | store x =>
    match Γ.get? x with
    | none => [.notDeclared x]
    | some target => storeFaults x target t
  | first target x => storeFaults x target t
  | test construct => conditionFaults construct t

/-- What the checker does at once. -/
inductive Task where
  /-- nothing: a statement begins or ends -/
  | pass
  | declare (t : Ty) (x : String)
  | read (x : String)
  | look (clause : Clause) (e : Expr)
  deriving Repr

/-- A task in the scopes in which it is done. -/
structure Visit where
  scopes : Scopes
  task : Task
  deriving Repr

/-- The faults that the checker finds at a visit. -/
def Visit.faults : Visit → List Fault
  | ⟨_, .pass⟩ => []
  | ⟨Γ, .declare t x⟩ => (Γ.checkDeclare x t).2
  | ⟨Γ, .read x⟩ => Γ.readFaults x
  | ⟨Γ, .look clause e⟩ => e.faults Γ ++ clause.faults Γ (e.typeOf Γ)

/-- The visits in a statement between its beginning and its end. -/
def Visit.around (Γ : Scopes) (s : Stmt) (visits : List Visit) : List Visit :=
  ⟨Γ, .pass⟩ :: (visits ++ [⟨(s.check Γ).1, .pass⟩])

/-- The visits of declarations from left to right. -/
def Scopes.declareVisits (Γ : Scopes) (t : Ty) : List String → List Visit
  | [] => []
  | x :: xs => ⟨Γ, .declare t x⟩ :: (Γ.checkDeclare x t).1.declareVisits t xs

/-- The visits of the first part of a `for` loop. -/
def ForInit.visits (Γ : Scopes) : Option ForInit → List Visit
  | none => []
  | some (.decl t x e) => [⟨Γ, .look (.first t x) e⟩, ⟨Γ, .declare t x⟩]
  | some (.assign x e) => [⟨Γ, .look (.store x) e⟩]

/-- The visits of the condition of a `for` loop. -/
def Expr.testVisits (Γ : Scopes) : Option Expr → List Visit
  | none => []
  | some c => [⟨Γ, .look (.test .forLoop) c⟩]

mutual

/-- The visits of a statement, in the order of the checker. -/
def Stmt.visits (Γ : Scopes) : Stmt → List Visit
  | .decl t xs => Visit.around Γ (.decl t xs) (Γ.declareVisits t xs)
  | .assign x e => Visit.around Γ (.assign x e) [⟨Γ, .look (.store x) e⟩]
  | .expr e => Visit.around Γ (.expr e) [⟨Γ, .look .value e⟩]
  | .write es => Visit.around Γ (.write es) (es.map fun e => ⟨Γ, .look .value e⟩)
  | .read xs => Visit.around Γ (.read xs) (xs.map fun x => ⟨Γ, .read x⟩)
  | .ifElse c t e => Visit.around Γ (.ifElse c t e)
      (⟨Γ, .look (.test .ifElse) c⟩ :: (t.visits Γ ++ Stmt.visitsOption (t.check Γ).1 e))
  | .whileLoop c body => Visit.around Γ (.whileLoop c body)
      (⟨Γ, .look (.test .whileLoop) c⟩ :: body.visits Γ)
  | .forLoop init c step body =>
    let Γ₁ := (ForInit.checkOption Γ.push init).1
    let Γ₂ := (Stmt.checkOption Γ₁ step).1
    Visit.around Γ (.forLoop init c step body) (⟨Γ.push, .pass⟩ :: (ForInit.visits Γ.push init ++
      (Expr.testVisits Γ₁ c ++ (Stmt.visitsOption Γ₁ step ++ body.visits Γ₂))))
  | .block body => Visit.around Γ (.block body) (⟨Γ.push, .pass⟩ :: Stmt.visitsAll Γ.push body)

/-- The visits of a statement, if there is one. -/
def Stmt.visitsOption (Γ : Scopes) : Option Stmt → List Visit
  | none => []
  | some s => s.visits Γ

/-- The visits of statements in order. -/
def Stmt.visitsAll (Γ : Scopes) : List Stmt → List Visit
  | [] => []
  | s :: ss => s.visits Γ ++ Stmt.visitsAll (s.check Γ).1 ss

end

/-- The visits of a program. -/
def Program.visits (p : Program) : List Visit := Stmt.visitsAll .empty p

/-- The faults of visits in a row. -/
def Visit.allFaults (visits : List Visit) : List Fault := visits.flatMap Visit.faults

namespace Visit

variable {Γ : Scopes}

@[simp] theorem allFaults_nil : allFaults [] = [] := rfl

@[simp] theorem allFaults_cons (v : Visit) (vs : List Visit) :
    allFaults (v :: vs) = v.faults ++ allFaults vs := List.flatMap_cons

@[simp] theorem allFaults_append (vs ws : List Visit) :
    allFaults (vs ++ ws) = allFaults vs ++ allFaults ws := List.flatMap_append

theorem allFaults_map {α : Type} (f : α → Visit) (xs : List α) :
    allFaults (xs.map f) = xs.flatMap fun x => (f x).faults := List.flatMap_map ..

@[simp] theorem faults_pass : Visit.faults ⟨Γ, .pass⟩ = [] := rfl

/-- The beginning and the end of a statement have no faults. -/
@[simp] theorem allFaults_around {s : Stmt} {vs : List Visit} :
    allFaults (around Γ s vs) = allFaults vs := by
  simp [around]

theorem faults_store {x : String} {e : Expr} :
    Visit.faults ⟨Γ, .look (.store x) e⟩ = Γ.checkAssign x e := by
  simp only [Visit.faults, Clause.faults, Scopes.checkAssign, Expr.faults, e.check_fst]
  cases Γ.get? x <;> rfl

theorem faults_test {c : Construct} {e : Expr} :
    Visit.faults ⟨Γ, .look (.test c) e⟩ = e.checkCondition Γ c := by
  simp only [Visit.faults, Clause.faults, Expr.checkCondition, Expr.faults, e.check_fst]

end Visit

open Visit

theorem Scopes.checkDeclareAll_eq_visits {t : Ty} : ∀ (xs : List String) {Γ : Scopes},
    (Γ.checkDeclareAll t xs).2 = allFaults (Γ.declareVisits t xs)
  | [], _ => rfl
  | x :: xs, Γ => by
    simp only [checkDeclareAll, declareVisits, allFaults_cons, Visit.faults,
      checkDeclareAll_eq_visits xs]

theorem ForInit.checkOption_eq_visits {Γ : Scopes} {init : Option ForInit} :
    (ForInit.checkOption Γ init).2 = allFaults (ForInit.visits Γ init) := by
  rcases init with _ | ⟨t, x, e⟩ | ⟨x, e⟩
  · rfl
  · simp [ForInit.checkOption, ForInit.check, ForInit.visits, Visit.faults, Clause.faults,
      Expr.faults, e.check_fst]
  · simp [ForInit.checkOption, ForInit.check, ForInit.visits, faults_store]

theorem Expr.testVisits_faults {Γ : Scopes} {c : Option Expr} :
    (c.map (·.checkCondition Γ .forLoop)).getD [] = allFaults (Expr.testVisits Γ c) := by
  cases c with
  | none => rfl
  | some c => simp [Expr.testVisits, faults_test]

mutual

/-- The faults of a statement are those of its visits. -/
theorem Stmt.check_eq_visits : ∀ (s : Stmt) {Γ : Scopes},
    (s.check Γ).2 = allFaults (s.visits Γ)
  | .decl t xs, Γ => by
    simp only [Stmt.check, Stmt.visits, allFaults_around, Scopes.checkDeclareAll_eq_visits]
  | .assign x e, Γ => by simp [Stmt.check, Stmt.visits, faults_store]
  | .expr e, Γ => by simp [Stmt.check, Stmt.visits, Visit.faults, Clause.faults]
  | .write es, Γ => by
    simp [Stmt.check, Stmt.visits, allFaults_map, Visit.faults, Clause.faults]
  | .read xs, Γ => by
    simp [Stmt.check, Stmt.visits, allFaults_map, Visit.faults]
  | .ifElse c t e, Γ => by
    simp only [Stmt.check, Stmt.visits, allFaults_around, allFaults_cons, allFaults_append,
      faults_test, t.check_eq_visits, Stmt.checkOption_eq_visits e, List.append_assoc]
  | .whileLoop c b, Γ => by
    simp only [Stmt.check, Stmt.visits, allFaults_around, allFaults_cons, faults_test,
      b.check_eq_visits]
  | .forLoop init c step b, Γ => by
    simp only [Stmt.check, Stmt.visits, allFaults_around, allFaults_cons, allFaults_append,
      faults_pass, List.nil_append, ForInit.checkOption_eq_visits, Expr.testVisits_faults,
      Stmt.checkOption_eq_visits step, b.check_eq_visits, List.append_assoc]
  | .block ss, Γ => by
    simp only [Stmt.check, Stmt.visits, allFaults_around, allFaults_cons, faults_pass,
      List.nil_append, Stmt.checkAll_eq_visits ss]

theorem Stmt.checkOption_eq_visits : ∀ (o : Option Stmt) {Γ : Scopes},
    (Stmt.checkOption Γ o).2 = allFaults (Stmt.visitsOption Γ o)
  | none, _ => rfl
  | some s, _ => s.check_eq_visits

theorem Stmt.checkAll_eq_visits : ∀ (ss : List Stmt) {Γ : Scopes},
    (Stmt.checkAll Γ ss).2 = allFaults (Stmt.visitsAll Γ ss)
  | [], _ => rfl
  | s :: ss, Γ => by
    simp only [Stmt.checkAll, Stmt.visitsAll, allFaults_append, s.check_eq_visits,
      Stmt.checkAll_eq_visits ss]

end

theorem Stmt.visitsAll_append {ss ss' : List Stmt} : ∀ {Γ : Scopes},
    Stmt.visitsAll Γ (ss ++ ss') =
      Stmt.visitsAll Γ ss ++ Stmt.visitsAll (Stmt.checkAll Γ ss).1 ss' := by
  induction ss with
  | nil => intro Γ; rfl
  | cons s ss ih =>
    intro Γ
    simp only [List.cons_append, Stmt.visitsAll, Stmt.checkAll, ih, List.append_assoc]

/-! ## Gaps -/

/-- A statement without one of its expressions, at any depth. -/
inductive Gap where
  | assign (x : String)
  | expr
  | write (before after : List Expr)
  | ifElse (thenBody : Stmt) (elseBody : Option Stmt)
  | whileLoop (body : Stmt)
  | forDecl (ty : Ty) (x : String) (condition : Option Expr) (step : Option Stmt) (body : Stmt)
  | forAssign (x : String) (condition : Option Expr) (step : Option Stmt) (body : Stmt)
  | forTest (init : Option ForInit) (step : Option Stmt) (body : Stmt)
  -- the gap is in a statement inside
  | thenBody (condition : Expr) (gap : Gap) (elseBody : Option Stmt)
  | elseBody (condition : Expr) (thenBody : Stmt) (gap : Gap)
  | whileBody (condition : Expr) (gap : Gap)
  | forStep (init : Option ForInit) (condition : Option Expr) (gap : Gap) (body : Stmt)
  | forBody (init : Option ForInit) (condition : Option Expr) (step : Option Stmt) (gap : Gap)
  | block (before : List Stmt) (gap : Gap) (after : List Stmt)

namespace Gap

/-- Puts an expression into a gap. -/
def fill (e : Expr) : Gap → Stmt
  | assign x => .assign x e
  | expr => .expr e
  | write before after => .write (before ++ e :: after)
  | ifElse t o => .ifElse e t o
  | whileLoop b => .whileLoop e b
  | forDecl t x c step b => .forLoop (some (.decl t x e)) c step b
  | forAssign x c step b => .forLoop (some (.assign x e)) c step b
  | forTest init step b => .forLoop init (some e) step b
  | thenBody c γ o => .ifElse c (γ.fill e) o
  | elseBody c t γ => .ifElse c t (some (γ.fill e))
  | whileBody c γ => .whileLoop c (γ.fill e)
  | forStep init c γ b => .forLoop init c (some (γ.fill e)) b
  | forBody init c step γ => .forLoop init c step (γ.fill e)
  | block before γ after => .block (before ++ γ.fill e :: after)

/-- What the statement with the gap does with the value. -/
def clause : Gap → Clause
  | assign x | forAssign x _ _ _ => .store x
  | expr | write _ _ => .value
  | ifElse _ _ => .test .ifElse
  | whileLoop _ => .test .whileLoop
  | forDecl t x _ _ _ => .first t x
  | forTest _ _ _ => .test .forLoop
  | thenBody _ γ _ | elseBody _ _ γ | whileBody _ γ | forStep _ _ γ _ | forBody _ _ _ γ
  | block _ γ _ => γ.clause

end Gap

/-- Of the visits, which depend on an expression, only one looks at it, and the others
    are always the same. -/
def Visit.Local (clause : Clause) (visits : Expr → List Visit) : Prop :=
  ∃ Γ V₁ V₂, ∀ e, visits e = V₁ ++ ⟨Γ, .look clause e⟩ :: V₂

namespace Visit.Local

variable {k : Clause} {f : Expr → List Visit}

theorem look {Γ : Scopes} : Visit.Local k fun e => [⟨Γ, .look k e⟩] := ⟨Γ, [], [], fun _ => rfl⟩

/-- Other visits come first. -/
theorem after (h : Visit.Local k f) (W : List Visit) : Visit.Local k fun e => W ++ f e := by
  obtain ⟨Γ, V₁, V₂, hf⟩ := h
  refine ⟨Γ, W ++ V₁, V₂, fun e => ?_⟩
  simp only [hf, List.append_assoc]

/-- Other visits follow. -/
theorem before (h : Visit.Local k f) (W : List Visit) : Visit.Local k fun e => f e ++ W := by
  obtain ⟨Γ, V₁, V₂, hf⟩ := h
  refine ⟨Γ, V₁, V₂ ++ W, fun e => ?_⟩
  simp only [hf, List.append_assoc, List.cons_append]

end Visit.Local

namespace Gap

/-- The scopes behind a statement do not depend on what is put into its gap. -/
theorem after_fill (γ : Gap) (Γ : Scopes) : ∃ Γ', ∀ e, ((γ.fill e).check Γ).1 = Γ' := by
  induction γ generalizing Γ with
  | assign | expr | write | forDecl | forAssign | forTest | forStep | forBody | block =>
    exact ⟨Γ, fun e => Stmt.check_fst _⟩
  | ifElse t o => exact ⟨Stmt.afterOption (t.after Γ) o, fun e => Stmt.check_fst _⟩
  | whileLoop b => exact ⟨b.after Γ, fun e => Stmt.check_fst _⟩
  | thenBody c γ o ih =>
    obtain ⟨Γ₁, h₁⟩ := ih Γ
    refine ⟨(Stmt.checkOption Γ₁ o).1, fun e => ?_⟩
    simp only [fill, Stmt.check, h₁]
  | elseBody c t γ ih =>
    obtain ⟨Γ₁, h₁⟩ := ih (t.check Γ).1
    refine ⟨Γ₁, fun e => ?_⟩
    simp only [fill, Stmt.check, Stmt.checkOption, h₁]
  | whileBody c γ ih =>
    obtain ⟨Γ₁, h₁⟩ := ih Γ
    refine ⟨Γ₁, fun e => ?_⟩
    simp only [fill, Stmt.check, h₁]

/-- The end of the statement with the gap is always in the same scopes. -/
theorem local_around (γ : Gap) {Γ : Scopes} {k : Clause} {f : Expr → List Visit}
    (h : Visit.Local k f) : Visit.Local k fun e => Visit.around Γ (γ.fill e) (f e) := by
  obtain ⟨Γ', hΓ'⟩ := γ.after_fill Γ
  simp only [Visit.around, hΓ']
  exact (h.before _).after [_]

/-- Statements around the one with the gap have their own visits. -/
theorem local_among (γ : Gap) (h : ∀ Γ, Visit.Local γ.clause fun e => (γ.fill e).visits Γ)
    (before after : List Stmt) (Γ : Scopes) :
    Visit.Local γ.clause fun e => Stmt.visitsAll Γ (before ++ γ.fill e :: after) := by
  obtain ⟨Γ₁, h₁⟩ := γ.after_fill (Stmt.checkAll Γ before).1
  simp only [Stmt.visitsAll_append, Stmt.visitsAll, h₁]
  exact ((h _).before _).after _

/-- Only one visit of a statement depends on what is put into its gap. -/
theorem visits_local (γ : Gap) (Γ : Scopes) :
    Visit.Local γ.clause fun e => (γ.fill e).visits Γ := by
  induction γ generalizing Γ with
  | assign x => exact (assign x).local_around .look
  | expr => exact expr.local_around .look
  | write before after =>
    refine (write before after).local_around ?_
    simp only [List.map_append, List.map_cons]
    exact (Visit.Local.look.before _).after _
  | ifElse t o => exact (ifElse t o).local_around (Visit.Local.look.before _)
  | whileLoop b => exact (whileLoop b).local_around (Visit.Local.look.before _)
  -- the loop is in the scopes that its first part leaves, whatever the value
  | forDecl t x c step b =>
    refine (forDecl t x c step b).local_around ?_
    simp only [ForInit.check_fst, ForInit.after, ForInit.visits]
    exact (Visit.Local.look.before _).after [_]
  | forAssign x c step b =>
    refine (forAssign x c step b).local_around ?_
    simp only [ForInit.check_fst, ForInit.after, ForInit.visits]
    exact (Visit.Local.look.before _).after [_]
  | forTest init step b =>
    exact (forTest init step b).local_around (((Visit.Local.look.before _).after _).after [_])
  | thenBody c γ o ih =>
    obtain ⟨Γ₁, h₁⟩ := γ.after_fill Γ
    refine (thenBody c γ o).local_around ?_
    simp only [h₁]
    exact ((ih Γ).before _).after [_]
  | elseBody c t γ ih =>
    exact (elseBody c t γ).local_around (((ih _).after _).after [_])
  | whileBody c γ ih => exact (whileBody c γ).local_around ((ih Γ).after [_])
  | forStep init c γ b ih =>
    obtain ⟨Γ₁, h₁⟩ := γ.after_fill (ForInit.checkOption Γ.push init).1
    refine (forStep init c γ b).local_around ?_
    simp only [Stmt.checkOption, h₁]
    exact ((((ih _).before _).after _).after _).after [_]
  | forBody init c step γ ih =>
    exact (forBody init c step γ).local_around (((((ih _).after _).after _).after _).after [_])
  | block before γ after ih =>
    exact (block before γ after).local_around ((γ.local_among ih before after _).after [_])

end Gap

/-- **A fault in an expression hides and causes no other.**  The check of a program with
    a gap makes the same visits in the same scopes whatever is put there, but for the
    visit of the gap, and ends in the same scopes.  So what is reported before and behind
    the gap is always the same, and between stand the faults of the expression and of the
    one check that its statement makes on it. -/
theorem Program.recovery_local (before : List Stmt) (γ : Gap) (after : List Stmt) :
    ∃ Γ V₁ V₂ Γ', ∀ e : Expr, let p : Program := before ++ γ.fill e :: after
      p.visits = V₁ ++ ⟨Γ, .look γ.clause e⟩ :: V₂ ∧
        p.check = (Γ', allFaults V₁ ++ (e.faults Γ ++ γ.clause.faults Γ (e.typeOf Γ)) ++
          allFaults V₂) := by
  obtain ⟨Γ, V₁, V₂, hV⟩ := γ.local_among γ.visits_local before after .empty
  obtain ⟨Γ₁, h₁⟩ := γ.after_fill (Stmt.checkAll .empty before).1
  refine ⟨Γ, V₁, V₂, (Stmt.checkAll Γ₁ after).1, fun e => ?_⟩
  intro p
  have hp : Stmt.visitsAll .empty p = V₁ ++ ⟨Γ, .look γ.clause e⟩ :: V₂ := hV e
  refine ⟨hp, Prod.ext ?_ ?_⟩
  · simp only [p, Program.check, Stmt.checkAll_append, Stmt.checkAll, h₁]
  · simp only [Program.check, Stmt.checkAll_eq_visits, hp, allFaults_append, allFaults_cons,
      Visit.faults, List.append_assoc]

/-- A value that is no int, in a loop between two faults of their own. -/
example : let p (e : Expr) : Program := [.decl .int ["n"],
      .block [.whileLoop (.var "n") (.assign "n" e)], .decl .float ["n"]]
    (p (.lit .int "1")).check.2 = [.conditionType .whileLoop .int, .alreadyDeclared "n"] ∧
      (p (.lit .bool "true")).check.2 = [.conditionType .whileLoop .int,
        .notAssignable "n" .int .bool, .alreadyDeclared "n"] := by decide

end StackLang
