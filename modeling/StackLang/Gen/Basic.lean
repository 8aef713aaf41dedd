/-
  Generators of code.

  A generator emits instructions, declares variables and mints labels, and may
  fail.  The code emitted before a failure, the declarations and the number of
  minted labels all outlive it, so that generation can go on.

  * `Gen` is the monad of generators, `Emission` what a run of one yields;
  * `emit`, `newLabel`, `declare` and `inScope` are its operations.
-/
import StackLang.TypeOf

namespace StackLang

/-- What a generator knows: the open scopes, and how many labels it minted. -/
structure GenState where
  scopes : Scopes := {}
  labels : Nat := 0
  deriving DecidableEq, Repr

/-- What a run of a generator yields: the emitted code, the new state, and a
    result or a fault. -/
structure Emission (α : Type) where
  code : List Instr
  state : GenState
  result : Except Fault α

/-- A generator with a result. -/
def Gen (α : Type) : Type := GenState → Emission α

namespace Gen

variable {α β : Type}

/-- The generator that only has a result. -/
protected def pure (a : α) : Gen α := fun s => ⟨[], s, .ok a⟩

/-- Runs one generator after another; a fault of the first is the fault of both. -/
protected def bind (x : Gen α) (f : α → Gen β) : Gen β := fun s =>
  match x s with
  | ⟨code, s', .ok a⟩ =>
    let e := f a s'
    ⟨code ++ e.code, e.state, e.result⟩
  | ⟨code, s', .error e⟩ => ⟨code, s', .error e⟩

instance : Monad Gen where
  pure := Gen.pure
  bind := Gen.bind

/-- Behind a success the second generator runs, and its code follows. -/
theorem bind_of_ok {x : Gen α} {f : α → Gen β} {s : GenState} {a : α}
    (h : (x s).result = .ok a) :
    (x >>= f) s = ⟨(x s).code ++ (f a (x s).state).code, (f a (x s).state).state,
      (f a (x s).state).result⟩ := by
  show Gen.bind x f s = _
  unfold Gen.bind
  rcases hx : x s with ⟨code, s', _ | b⟩ <;> simp_all

/-- Behind a failure nothing runs. -/
theorem bind_of_error {x : Gen α} {f : α → Gen β} {s : GenState} {e : Fault}
    (h : (x s).result = .error e) : (x >>= f) s = ⟨(x s).code, (x s).state, .error e⟩ := by
  show Gen.bind x f s = _
  unfold Gen.bind
  rcases hx : x s with ⟨code, s', _ | b⟩ <;> simp_all

@[simp] theorem pure_apply (a : α) (s : GenState) : (pure a : Gen α) s = ⟨[], s, .ok a⟩ := rfl

/-- Fails. -/
def fail (f : Fault) : Gen α := fun s => ⟨[], s, .error f⟩

/-- Emits one instruction. -/
def emit (i : Instr) : Gen Unit := fun s => ⟨[i], s, .ok ()⟩

/-- Mints a new label. -/
def newLabel : Gen String := fun s =>
  ⟨[], { s with labels := s.labels + 1 }, .ok (labelName s.labels)⟩

/-- The static type of an expression in the open scopes. -/
def staticType (e : Expr) : Gen Ty := fun s => ⟨[], s, .ok (e.typeOf s.scopes)⟩

/-- The type of a variable, which must be declared. -/
def declaredType (x : String) : Gen Ty := fun s =>
  match s.scopes.get? x with
  | some t => ⟨[], s, .ok t⟩
  | none => ⟨[], s, .error (.notDeclared x)⟩

/-- Declares a variable in the current scope. -/
def declare (x : String) (t : Ty) : Gen Unit := fun s =>
  match s.scopes.declare x t with
  | .ok Γ => ⟨[], { s with scopes := Γ }, .ok ()⟩
  | .error f => ⟨[], s, .error f⟩

/-- Declares variables from left to right, up to the first failure. -/
def declareAll (t : Ty) : List String → Gen Unit
  | [] => pure ()
  | x :: xs => do declare x t; declareAll t xs

/-- Runs a generator in a scope of its own, which is closed also if it fails. -/
def inScope (x : Gen α) : Gen α := fun s =>
  let e := x { s with scopes := s.scopes.push }
  { e with state := { e.state with scopes := e.state.scopes.pop } }

/-- The tag of a type; `construct` names what has no type. -/
def tagFor (t : Ty) (construct : String) : Gen Tag :=
  match t.tag? with
  | some tag => pure tag
  | none => fail (.unresolvedType construct)

/-- Converts the int on top of the stack where a float is wanted. -/
def convert (given wanted : Ty) : Gen Unit :=
  if given = .int ∧ wanted = .float then emit (.plain .itof) else pure ()

end Gen

end StackLang
