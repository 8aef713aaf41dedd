/-
  What all generators of expressions and statements have in common.

  `Gen.Admits P` says that the property `P` holds of the operations of generators and of
  what is put together from such generators.  Then it holds of the generators of all
  expressions (`Expr.admits_gen`) and statements (`Stmt.admits_gen`), also of those that
  fail.

  A property may speak of the labels that a generator places: `P own x` is about a
  generator that owns the labels `own`, each of which it may place once.
-/
import StackLang.Gen.Stmt

namespace StackLang

namespace Gen

/-- A property of generators and the labels they own that holds of the operations, and
    of what is put together from generators that have it. -/
structure Admits (P : ∀ α : Type, List String → Gen α → Prop) : Prop where
  /-- a generator that only has a result or a fault -/
  silent : ∀ {α : Type} {own : List String} {x : Gen α},
    (∀ g, (x g).code = [] ∧ (x g).state = g) → P α own x
  declare : ∀ {own : List String} {x : String} {t : Ty}, P Unit own (declare x t)
  /-- an instruction that is no label -/
  emit : ∀ {own : List String} {i : Instr}, i.label? = none → P Unit own (emit i)
  /-- the last label of one's own -/
  emit_label : ∀ {l : String}, P Unit [l] (Gen.emit (.named .label l))
  /-- a label of one's own, and what follows it -/
  place : ∀ {β : Type} {own : List String} {l : String} {f : Unit → Gen β},
    P β own (f ()) → P β (l :: own) (Gen.emit (.named .label l) >>= f)
  /-- what follows a new label owns it -/
  newLabel_bind : ∀ {β : Type} {own : List String} {f : String → Gen β},
    (∀ l, P β (own ++ [l]) (f l)) → P β own (newLabel >>= f)
  seq : ∀ {α β : Type} {own : List String} {x : Gen α} {f : α → Gen β},
    P α [] x → (∀ a, P β own (f a)) → P β own (x >>= f)
  inScope : ∀ {α : Type} {own : List String} {x : Gen α}, P α own x → P α own (inScope x)

namespace Admits

variable {P : ∀ α : Type, List String → Gen α → Prop} (hP : Admits P) {α : Type}
  {own : List String}

include hP

theorem pure {a : α} : P α own (pure a) := hP.silent fun _ => ⟨rfl, rfl⟩

theorem staticType {e : Expr} : P Ty own (staticType e) := hP.silent fun _ => ⟨rfl, rfl⟩

theorem declaredType {x : String} : P Ty own (declaredType x) := by
  refine hP.silent fun g => ?_
  unfold Gen.declaredType
  split <;> exact ⟨rfl, rfl⟩

theorem tagFor {t : Ty} {construct : String} : P Tag own (tagFor t construct) := by
  refine hP.silent fun g => ?_
  unfold Gen.tagFor
  cases t.tag? <;> exact ⟨rfl, rfl⟩

theorem convert {given wanted : Ty} : P Unit own (convert given wanted) := by
  unfold Gen.convert
  split
  · exact hP.emit rfl
  · exact hP.pure

theorem declareAll {t : Ty} : ∀ xs : List String, P Unit [] (declareAll t xs)
  | [] => hP.pure
  | _ :: xs => hP.seq hP.declare fun _ => declareAll xs

theorem readAll : ∀ xs : List String, P Unit [] (readAll xs)
  | [] => hP.pure
  | _ :: xs => hP.seq hP.declaredType fun _ => hP.seq hP.tagFor fun _ =>
      hP.seq (hP.emit rfl) fun _ => hP.seq (hP.emit rfl) fun _ => readAll xs

end Admits

end Gen

open Gen

variable {P : ∀ α : Type, List String → Gen α → Prop}

theorem Expr.admits_gen (hP : Admits P) (e : Expr) : P Unit [] e.gen := by
  induction e with
  | lit | var => exact hP.emit rfl
  | un op e ih =>
    cases op with
    | minus => exact hP.seq hP.staticType fun _ => hP.seq ih fun _ => hP.emit rfl
    | not => exact hP.seq ih fun _ => hP.emit rfl
  | bin op l r ihl ihr =>
    refine hP.seq hP.staticType fun tl => hP.seq hP.staticType fun tr => ?_
    cases op.form with
    | plain p => exact hP.seq ihl fun _ => hP.seq ihr fun _ => hP.emit rfl
    | numeric p =>
      exact hP.seq ihl fun _ => hP.seq hP.convert fun _ => hP.seq ihr fun _ =>
        hP.seq hP.convert fun _ => hP.seq hP.tagFor fun _ => hP.emit rfl
    | equality negated =>
      refine hP.seq ihl fun _ => hP.seq hP.convert fun _ => hP.seq ihr fun _ =>
        hP.seq hP.convert fun _ => hP.seq hP.tagFor fun _ => hP.seq (hP.emit rfl) fun _ => ?_
      split
      · exact hP.emit rfl
      · exact hP.pure
  | cond c t e ihc iht ihe =>
    refine hP.seq hP.staticType fun tt => hP.seq hP.staticType fun te =>
      hP.newLabel_bind fun _ => hP.newLabel_bind fun _ => ?_
    exact hP.seq ihc fun _ => hP.seq (hP.emit rfl) fun _ => hP.seq iht fun _ =>
      hP.seq hP.convert fun _ => hP.seq (hP.emit rfl) fun _ => hP.place <|
        hP.seq ihe fun _ => hP.seq hP.convert fun _ => hP.emit_label
  | paren e ih => exact ih

theorem Expr.admits_genAll (hP : Admits P) : ∀ es : List Expr, P Unit [] (Expr.genAll es)
  | [] => hP.pure
  | e :: es => hP.seq (e.admits_gen hP) fun _ => Expr.admits_genAll hP es

namespace Gen.Admits

variable (hP : Admits P)

include hP

theorem store {x : String} {t : Ty} {e : Expr} : P Unit [] (store x t e) :=
  hP.seq hP.staticType fun _ => hP.seq (e.admits_gen hP) fun _ => hP.seq hP.convert fun _ =>
    hP.emit rfl

theorem assignTo {x : String} {e : Expr} : P Unit [] (assignTo x e) :=
  hP.seq hP.declaredType fun _ => hP.store

theorem exitUnless {l : String} {o : Option Expr} : P Unit [] (exitUnless l o) := by
  cases o with
  | none => exact hP.pure
  | some c => exact hP.seq (c.admits_gen hP) fun _ => hP.emit rfl

end Gen.Admits

theorem ForInit.admits_genOption (hP : Admits P) (init : Option ForInit) :
    P Unit [] (ForInit.genOption init) := by
  rcases init with _ | ⟨t, x, e⟩ | ⟨x, e⟩
  · exact hP.pure
  · exact hP.seq hP.store fun _ => hP.declare
  · exact hP.assignTo

mutual

/-- **What holds of the operations of generators holds of every statement.** -/
theorem Stmt.admits_gen (hP : Admits P) : ∀ s : Stmt, P Unit [] s.gen
  | .decl _ xs => hP.declareAll xs
  | .assign _ _ => hP.assignTo
  | .expr e => hP.seq (e.admits_gen hP) fun _ => hP.emit rfl
  | .write es => hP.seq (Expr.admits_genAll hP es) fun _ => hP.emit rfl
  | .read xs => hP.readAll xs
  | .ifElse c t e => hP.newLabel_bind fun _ => hP.newLabel_bind fun _ =>
      hP.seq (c.admits_gen hP) fun _ => hP.seq (hP.emit rfl) fun _ =>
        hP.seq (t.admits_gen hP) fun _ => hP.seq (hP.emit rfl) fun _ => hP.place <|
          hP.seq (Stmt.admits_genOption hP e) fun _ => hP.emit_label
  | .whileLoop c b => hP.newLabel_bind fun _ => hP.newLabel_bind fun _ => hP.place <|
      hP.seq (c.admits_gen hP) fun _ => hP.seq (hP.emit rfl) fun _ =>
        hP.seq (b.admits_gen hP) fun _ => hP.seq (hP.emit rfl) fun _ => hP.emit_label
  | .forLoop init _ step b => hP.inScope <| hP.seq (ForInit.admits_genOption hP init) fun _ =>
      hP.newLabel_bind fun _ => hP.newLabel_bind fun _ => hP.place <|
        hP.seq hP.exitUnless fun _ => hP.seq (b.admits_gen hP) fun _ =>
          hP.seq (Stmt.admits_genOption hP step) fun _ => hP.seq (hP.emit rfl) fun _ =>
            hP.emit_label
  | .block ss => hP.inScope (Stmt.admits_genAll hP ss)

theorem Stmt.admits_genOption (hP : Admits P) : ∀ o : Option Stmt, P Unit [] (Stmt.genOption o)
  | none => hP.pure
  | some s => s.admits_gen hP

theorem Stmt.admits_genAll (hP : Admits P) : ∀ ss : List Stmt, P Unit [] (Stmt.genAll ss)
  | [] => hP.pure
  | s :: ss => hP.seq (s.admits_gen hP) fun _ => Stmt.admits_genAll hP ss

end

end StackLang
