/-
  What scopes remember of their history.

  * `ScopeCall` lists the operations on scopes, `Scopes.replay` carries out calls one after
    the other and keeps the history: the calls, and which of them succeeded;
  * `History.OpenSince h m`: a scope was opened in front of the part `m` of the history, and
    is still open.  `History.DeclaredAt m k x t`: behind `k`, this scope itself, and not one
    inside it, declared the name;
  * `History.Stacked h ss`: the history is cut where the scopes `ss` were opened that are
    still open, and each part tells the declarations of one of them.  A call keeps this
    (`History.Stacked.perform`), so it holds of every history (`History.stacked_replay`);
  * `Scopes.recalls_history`: depth, success and every lookup are told by the history.
-/
import Mathlib.Data.List.Infix
import StackLang.Scope

namespace StackLang

/-- The operations that change scopes. -/
inductive ScopeCall where
  | push
  | pop
  | declare (x : String) (t : Ty)
  deriving DecidableEq, Repr

/-- Calls, the first one first, and whether they succeeded. -/
abbrev History := List (ScopeCall × Bool)

namespace Scopes

/-- Carries out a call; the second part of the result is whether it succeeded. -/
def perform (Γ : Scopes) : ScopeCall → Scopes × Bool
  | .push => (Γ.push, true)
  | .pop =>
    match Γ.pop? with
    | some Γ' => (Γ', true)
    | none => (Γ, false)
  | .declare x t =>
    match Γ.declare x t with
    | .ok Γ' => (Γ', true)
    | .error _ => (Γ, false)

/-- Carries out calls one after the other, and keeps their history. -/
def replay (Γ : Scopes) : List ScopeCall → Scopes × History
  | [] => (Γ, [])
  | c :: cs =>
    let (Γ', done) := Γ.perform c
    let (Γ'', h) := replay Γ' cs
    (Γ'', (c, done) :: h)

theorem replay_append (Γ : Scopes) (cs ds : List ScopeCall) :
    Γ.replay (cs ++ ds) = (((Γ.replay cs).1.replay ds).1,
      (Γ.replay cs).2 ++ ((Γ.replay cs).1.replay ds).2) := by
  induction cs generalizing Γ with
  | nil => rfl
  | cons c cs ih => simp only [List.cons_append, replay, ih]

end Scopes

namespace History

/-- The number of scopes that were opened. -/
def pushes (h : History) : Nat := h.count (.push, true)

/-- The number of scopes that were closed. -/
def pops (h : History) : Nat := h.count (.pop, true)

/-- No scope is closed that was open before. -/
def Lasting (m : History) : Prop := ∀ k, k <+: m → pops k ≤ pushes k

/-- A scope is open since the part `m` of the history began: at the start of the history,
    when there was the global scope, or when a scope was opened. -/
structure OpenSince (h m : History) : Prop where
  opened : h = m ∨ ∃ before, h = before ++ (.push, true) :: m
  lasting : Lasting m

/-- Behind the part `k` of what happened since a scope was opened, the name was declared
    in this very scope: all scopes that were opened in `k` were closed again. -/
def DeclaredAt (m k : History) (x : String) (t : Ty) : Prop :=
  pushes k = pops k ∧ ∃ rest, m = k ++ (.declare x t, true) :: rest

/-- The name was declared in a scope that is still open, and in no scope that was opened
    later and is still open. -/
def Visible (h : History) (x : String) (t : Ty) : Prop :=
  ∃ m k, OpenSince h m ∧ DeclaredAt m k x t ∧
    ∀ m' k' t', OpenSince h m' → m'.length < m.length → ¬ DeclaredAt m' k' x t'

/-! ## Parts of a history -/

variable {h k m m' : History} {x : String} {t : Ty}

@[simp] theorem pushes_nil : pushes [] = 0 := rfl

@[simp] theorem pops_nil : pops [] = 0 := rfl

@[simp] theorem pushes_append (h m : History) : pushes (h ++ m) = pushes h + pushes m :=
  List.count_append

@[simp] theorem pops_append (h m : History) : pops (h ++ m) = pops h + pops m := List.count_append

@[simp] theorem pushes_push (h : History) : pushes ((.push, true) :: h) = pushes h + 1 :=
  List.count_cons_self

@[simp] theorem pops_push (h : History) : pops ((.push, true) :: h) = pops h :=
  List.count_cons_of_ne (by simp)

/-- All scopes that are opened are closed again, and no others. -/
structure Level (m : History) : Prop where
  lasting : Lasting m
  even : pushes m = pops m

theorem Lasting.le (hm : Lasting m) : pops m ≤ pushes m := hm m (List.prefix_refl m)

theorem Lasting.left (hm : Lasting (m ++ m')) : Lasting m :=
  fun k hk => hm k (hk.trans (List.prefix_append m m'))

theorem Lasting.append (hm : Lasting m) (hm' : Lasting m') : Lasting (m ++ m') := by
  rintro k ⟨r, hr⟩
  rcases List.append_eq_append_iff.1 hr with ⟨j, hj, -⟩ | ⟨j, rfl, hj⟩
  · exact hm k ⟨j, hj.symm⟩
  · have hle := hm.le
    have hle' := hm' j ⟨r, hj.symm⟩
    simp only [pushes_append, pops_append]
    omega

theorem Lasting.push (hm : Lasting m) : Lasting ((.push, true) :: m) := by
  rintro k ⟨r, hr⟩
  cases k with
  | nil => simp
  | cons e k =>
    obtain ⟨rfl, hk⟩ := List.cons.inj hr
    have hle := hm k ⟨r, hk⟩
    simp only [pushes_push, pops_push]
    omega

theorem level_nil : Level [] := ⟨fun k hk => by simp [List.prefix_nil.1 hk], rfl⟩

theorem level_singleton {e : ScopeCall × Bool} (hpush : e ≠ (.push, true))
    (hpop : e ≠ (.pop, true)) : Level [e] := by
  have hnone : pushes [e] = 0 ∧ pops [e] = 0 := by
    constructor
    · exact List.count_eq_zero.2 fun h => hpush (List.mem_singleton.1 h).symm
    · exact List.count_eq_zero.2 fun h => hpop (List.mem_singleton.1 h).symm
  refine ⟨fun k hk => ?_, hnone.1.trans hnone.2.symm⟩
  have hle : pops k ≤ pops [e] := hk.sublist.count_le _
  omega

theorem Level.append (hm : Level m) (hm' : Level m') : Level (m ++ m') := by
  refine ⟨hm.lasting.append hm'.lasting, ?_⟩
  rw [pushes_append, pops_append, hm.even, hm'.even]

theorem Level.enclose (hm : Level m) : Level ((.push, true) :: m ++ [(.pop, true)]) := by
  have heven : pushes ((.push, true) :: m ++ [(.pop, true)]) =
      pops ((.push, true) :: m ++ [(.pop, true)]) := by
    have hpop : pushes [(.pop, true)] = 0 ∧ pops [(.pop, true)] = 1 := by decide
    simp [hpop, hm.even]
  refine ⟨?_, heven⟩
  rintro k ⟨r, hr⟩
  rcases List.append_eq_append_iff.1 hr with ⟨j, hj, -⟩ | ⟨j, rfl, hj⟩
  · exact hm.lasting.push k ⟨j, hj.symm⟩
  · -- either nothing or all of the closing is in front
    cases j with
    | nil =>
      rw [List.append_nil]
      exact hm.lasting.push.le
    | cons e j =>
      obtain ⟨rfl, hnil⟩ := List.cons.inj hj
      obtain ⟨rfl, -⟩ := List.append_eq_nil_iff.1 hnil.symm
      exact heven.ge

/-! ## Declarations -/

theorem append_eq_entry {r : History} {e : ScopeCall × Bool} : m ++ m' = k ++ e :: r ↔
    (∃ j, m = k ++ e :: j ∧ r = j ++ m') ∨ ∃ j, k = m ++ j ∧ m' = j ++ e :: r := by
  rw [List.append_eq_append_iff]
  constructor
  · rintro (⟨j, hk, hm'⟩ | ⟨j, hm, hr⟩)
    · exact .inr ⟨j, hk, hm'⟩
    · cases j with
      | nil => exact .inr ⟨[], by simpa using hm.symm, by simpa using hr.symm⟩
      | cons e' j =>
        obtain ⟨rfl, hj⟩ := List.cons.inj hr
        exact .inl ⟨j, hm, hj⟩
  · rintro (⟨j, hm, hr⟩ | ⟨j, hk, hm'⟩)
    · exact .inr ⟨e :: j, hm, by rw [hr]; rfl⟩
    · exact .inl ⟨j, hk, hm'⟩

/-- The declarations of a scope stay, and none is added, as long as only scopes inside it
    are opened. -/
theorem declaredAt_inside (hm : Lasting m) (hm' : Lasting m') :
    DeclaredAt (m ++ (.push, true) :: m') k x t ↔ DeclaredAt m k x t := by
  constructor
  · rintro ⟨heven, r, hr⟩
    rcases append_eq_entry.1 hr with ⟨j, hj, -⟩ | ⟨j, rfl, hj⟩
    · exact ⟨heven, j, hj⟩
    · rcases List.cons_eq_append_iff.1 hj with ⟨rfl, hj⟩ | ⟨j, rfl, rfl⟩
      · simp at hj
      · -- the scope that was opened behind `m` is still open
        have hle := hm.le
        have hle' := hm'.left.le
        simp only [pushes_append, pushes_push, pops_append, pops_push] at heven
        omega
  · rintro ⟨heven, r, rfl⟩
    exact ⟨heven, _, List.append_assoc _ _ _⟩

theorem declaredAt_concat {e : ScopeCall × Bool} (he : ∀ x t, e ≠ (.declare x t, true)) :
    DeclaredAt (m ++ [e]) k x t ↔ DeclaredAt m k x t := by
  constructor
  · rintro ⟨heven, r, hr⟩
    rcases append_eq_entry.1 hr with ⟨j, hj, -⟩ | ⟨j, -, hj⟩
    · exact ⟨heven, j, hj⟩
    · rcases List.cons_eq_append_iff.1 hj with ⟨rfl, hj⟩ | ⟨j, -, hj⟩
      · exact absurd (List.cons.inj hj).1 (he x t)
      · simp at hj
  · rintro ⟨heven, r, rfl⟩
    exact ⟨heven, _, List.append_assoc _ _ _⟩

/-- A declaration in a scope that is the current one. -/
theorem declaredAt_declare (hm : pushes m = pops m) {y : String} {u : Ty} :
    DeclaredAt (m ++ [(.declare x t, true)]) k y u ↔
      DeclaredAt m k y u ∨ k = m ∧ y = x ∧ u = t := by
  constructor
  · rintro ⟨heven, r, hr⟩
    rcases append_eq_entry.1 hr with ⟨j, hj, -⟩ | ⟨j, rfl, hj⟩
    · exact .inl ⟨heven, j, hj⟩
    · rcases List.cons_eq_append_iff.1 hj with ⟨rfl, hentry⟩ | ⟨j, -, hj⟩
      · simp only [List.cons.injEq, Prod.mk.injEq, ScopeCall.declare.injEq] at hentry
        exact .inr ⟨List.append_nil m, hentry.1.1⟩
      · simp at hj
  · rintro (⟨heven, r, rfl⟩ | ⟨rfl, rfl, rfl⟩)
    · exact ⟨heven, _, List.append_assoc _ _ _⟩
    · exact ⟨hm, [], rfl⟩

/-! ## Scopes and their parts of the history -/

/-- The part of a history since a scope was opened, up to the next opening of a scope that
    is still open, tells the declarations of the scope. -/
structure Tells (m : History) (s : Scope) : Prop extends Level m where
  get : ∀ x t, s.get? x = some t ↔ ∃ k, DeclaredAt m k x t
  once : ∀ k k' x t t', DeclaredAt m k x t → DeclaredAt m k' x t' → k = k'

namespace Tells

variable {s s' : Scope}

/-- What is neither left open nor declares anything in the scope. -/
theorem congr (hm : Tells m s) {e : History} (hlevel : Level (m ++ e))
    (h : ∀ k x t, DeclaredAt (m ++ e) k x t ↔ DeclaredAt m k x t) : Tells (m ++ e) s where
  toLevel := hlevel
  get x t := by simp only [hm.get, h]
  once k k' x t t' := by
    rw [h, h]
    exact hm.once k k' x t t'

theorem empty : Tells [] {} where
  toLevel := level_nil
  get x t := by simp [DeclaredAt, Scope.get?]
  once := by simp [DeclaredAt]

theorem failed (hm : Tells m s) (c : ScopeCall) : Tells (m ++ [(c, false)]) s :=
  hm.congr (hm.append (level_singleton (by simp) (by simp))) fun _ _ _ =>
    declaredAt_concat (by simp)

theorem enclosed (hm : Tells m s) (hm' : Level m') :
    Tells (m ++ ((.push, true) :: m' ++ [(.pop, true)])) s :=
  hm.congr (hm.append hm'.enclose) fun k x t => by
    rw [← List.append_assoc, declaredAt_concat (by simp), declaredAt_inside hm.lasting hm'.lasting]

theorem declare (hm : Tells m s) (hs : s.declare x t = .ok s') :
    Tells (m ++ [(.declare x t, true)]) s' where
  toLevel := hm.append (level_singleton (by simp) (by simp))
  get y u := by
    simp only [Scope.get?_declare hs, declaredAt_declare hm.even, exists_or, exists_eq_left,
      ← hm.get]
    by_cases hy : y = x
    · obtain ⟨hnone, -⟩ := Scope.declare_eq_ok.1 hs
      simp [hy, hnone, eq_comm]
    · simp [hy]
  once k k' y u u' hk hk' := by
    rw [declaredAt_declare hm.even] at hk hk'
    -- a name that was declared before is not declared again
    have hnew (j : History) (w : Ty) : ¬ DeclaredAt m j x w := by
      intro hj
      have hsome := (hm.get x w).2 ⟨j, hj⟩
      rw [(Scope.declare_eq_ok.1 hs).1] at hsome
      cases hsome
    rcases hk with hk | ⟨rfl, rfl, -⟩
    · rcases hk' with hk' | ⟨-, rfl, -⟩
      · exact hm.once k k' y u u' hk hk'
      · exact absurd hk (hnew k u)
    · rcases hk' with hk' | ⟨rfl, -, -⟩
      · exact absurd hk' (hnew k' u')
      · rfl

end Tells

/-- The history consists of the parts that tell the declarations of the scopes, the
    innermost first. -/
inductive Stacked : History → List Scope → Prop
  | global {m : History} {s : Scope} : Tells m s → Stacked m [s]
  | inner {h m : History} {s : Scope} {ss : List Scope} : Stacked h ss → Tells m s →
      Stacked (h ++ (.push, true) :: m) (s :: ss)

namespace Stacked

variable {s s' : Scope} {ss : List Scope}

theorem extend {e : History} (hs : Stacked h (s :: ss))
    (he : ∀ m, Tells m s → Tells (m ++ e) s') : Stacked (h ++ e) (s' :: ss) := by
  cases hs with
  | global hm => exact .global (he _ hm)
  | inner hs hm =>
    rw [List.append_assoc, List.cons_append]
    exact .inner hs (he _ hm)

/-- **A call extends the history.** -/
theorem perform {Γ : Scopes} (hs : Stacked h (Γ.current :: Γ.outer)) (c : ScopeCall) :
    Stacked (h ++ [(c, (Γ.perform c).2)]) ((Γ.perform c).1.current :: (Γ.perform c).1.outer) := by
  cases c with
  | push => exact .inner hs .empty
  | pop =>
    rcases Γ with ⟨s, _ | ⟨s', ss⟩⟩
    · exact hs.extend fun m hm => hm.failed .pop
    · cases hs with
      | @inner h m _ _ hs hm =>
        simp only [Scopes.perform, Scopes.pop?, List.append_assoc]
        exact hs.extend fun _ hm' => hm'.enclosed hm.toLevel
  | declare x t =>
    simp only [Scopes.perform, Scopes.declare]
    cases hd : Γ.current.declare x t with
    | error f => exact hs.extend fun m hm => hm.failed (.declare x t)
    | ok s' => exact hs.extend fun m hm => hm.declare hd

theorem depth_eq (hs : Stacked h ss) : ss.length + pops h = 1 + pushes h := by
  induction hs with
  | global hm => simp [hm.even]
  | inner _ hm ih =>
    simp only [List.length_cons, pops_append, pops_push, pushes_append, pushes_push, hm.even]
    omega

end Stacked

/-- **The scopes that are open are told by every history.** -/
theorem stacked_replay (cs : List ScopeCall) :
    let (Γ, h) := Scopes.empty.replay cs
    Stacked h (Γ.current :: Γ.outer) := by
  induction cs using List.reverseRecOn with
  | nil => exact .global .empty
  | append_singleton cs c ih =>
    rw [Scopes.replay_append]
    exact ih.perform c

/-! ## Open scopes -/

/-- Where all inner scopes are closed, only the whole is open. -/
theorem openSince_of_level (hm : Level m) : OpenSince m m' ↔ m' = m := by
  constructor
  · rintro ⟨rfl | ⟨before, rfl⟩, hm'⟩
    · rfl
    · -- the scope that was opened behind `before` would be closed
      have hle := hm.lasting.left.le
      have hle' := hm'.le
      have heven := hm.even
      simp only [pushes_append, pushes_push, pops_append, pops_push] at heven
      omega
  · rintro rfl
    exact ⟨.inl rfl, hm.lasting⟩

/-- Inside a scope, this scope and those around it are open. -/
theorem openSince_inner (hm : Level m) : OpenSince (h ++ (.push, true) :: m) m' ↔
    m' = m ∨ ∃ j, m' = j ++ (.push, true) :: m ∧ OpenSince h j := by
  constructor
  · rintro ⟨rfl | ⟨before, hb⟩, hm'⟩
    · exact .inr ⟨h, rfl, .inl rfl, hm'.left⟩
    · rcases append_eq_entry.1 hb with ⟨j, rfl, rfl⟩ | ⟨j, -, hj⟩
      · exact .inr ⟨j, rfl, .inr ⟨before, rfl⟩, hm'.left⟩
      · rcases List.cons_eq_append_iff.1 hj with ⟨-, hj⟩ | ⟨j, -, hj⟩
        · exact .inl (List.cons.inj hj).2
        · have hwhole := (openSince_of_level hm).1 ⟨.inr ⟨j, hj⟩, hm'⟩
          exact .inl hwhole
  · rintro (rfl | ⟨j, rfl, hj, hlast⟩)
    · exact ⟨.inr ⟨h, rfl⟩, hm.lasting⟩
    · refine ⟨?_, hlast.append hm.lasting.push⟩
      rcases hj with rfl | ⟨before, rfl⟩
      · exact .inl rfl
      · exact .inr ⟨before, by rw [List.append_assoc]; rfl⟩

namespace Stacked

variable {s : Scope} {ss : List Scope}

/-- The current scope is the only one in which all inner scopes are closed. -/
theorem current (hs : Stacked h (s :: ss)) :
    ∃ m, Tells m s ∧ ∀ m', OpenSince h m' ∧ pushes m' = pops m' ↔ m' = m := by
  cases hs with
  | global hm =>
    refine ⟨h, hm, fun m' => ?_⟩
    rw [openSince_of_level hm.toLevel, and_iff_left_iff_imp]
    rintro rfl
    exact hm.even
  | @inner h m _ _ hs hm =>
    refine ⟨m, hm, fun m' => ⟨?_, ?_⟩⟩
    · rintro ⟨hopen, heven⟩
      rcases (openSince_inner hm.toLevel).1 hopen with rfl | ⟨j, rfl, hj⟩
      · rfl
      · have hle := hj.lasting.le
        have heven' := hm.even
        simp only [pushes_append, pushes_push, pops_append, pops_push] at heven
        omega
    · rintro rfl
      exact ⟨(openSince_inner hm.toLevel).2 (.inl rfl), hm.even⟩

/-- No open scope declared a name twice. -/
theorem once (hs : Stacked h ss) {k' : History} {t' : Ty} (hm : OpenSince h m)
    (hk : DeclaredAt m k x t) (hk' : DeclaredAt m k' x t') : k = k' := by
  induction hs generalizing m with
  | global hs =>
    obtain rfl := (openSince_of_level hs.toLevel).1 hm
    exact hs.once k k' x t t' hk hk'
  | inner _ hs ih =>
    rcases (openSince_inner hs.toLevel).1 hm with rfl | ⟨j, rfl, hj⟩
    · exact hs.once k k' x t t' hk hk'
    · rw [declaredAt_inside hj.lasting hs.lasting] at hk hk'
      exact ih hj hk hk'

/-- **A lookup finds the declaration in the innermost scope that has one.** -/
theorem findSome? (hs : Stacked h ss) (x : String) :
    match ss.findSome? (·.get? x) with
    | some t => Visible h x t
    | none => ∀ m k t, OpenSince h m → ¬ DeclaredAt m k x t := by
  induction hs with
  | @global m s hm =>
    rw [List.findSome?_singleton]
    cases hx : s.get? x with
    | some t =>
      obtain ⟨k, hk⟩ := (hm.get x t).1 hx
      refine ⟨m, k, (openSince_of_level hm.toLevel).2 rfl, hk, fun m' _ _ hm' hlt => ?_⟩
      rw [(openSince_of_level hm.toLevel).1 hm'] at hlt
      exact absurd hlt (Nat.lt_irrefl _)
    | none =>
      intro m' k t hm' hk
      rw [(openSince_of_level hm.toLevel).1 hm'] at hk
      rw [(hm.get x t).2 ⟨k, hk⟩] at hx
      cases hx
  | @inner h m s ss hs hm ih =>
    rw [List.findSome?_cons]
    cases hx : s.get? x with
    | some t =>
      obtain ⟨k, hk⟩ := (hm.get x t).1 hx
      refine ⟨m, k, (openSince_inner hm.toLevel).2 (.inl rfl), hk, fun m' _ _ hm' hlt => ?_⟩
      rcases (openSince_inner hm.toLevel).1 hm' with rfl | ⟨j, rfl, -⟩
      · exact absurd hlt (Nat.lt_irrefl _)
      · simp only [List.length_append, List.length_cons] at hlt
        omega
    | none =>
      have hhere (k : History) (t : Ty) : ¬ DeclaredAt m k x t := by
        intro hk
        rw [(hm.get x t).2 ⟨k, hk⟩] at hx
        cases hx
      dsimp only
      cases hss : ss.findSome? (·.get? x) with
      | some t =>
        rw [hss] at ih
        obtain ⟨j, k, hj, hk, hfirst⟩ := ih
        refine ⟨j ++ (.push, true) :: m, k, (openSince_inner hm.toLevel).2 (.inr ⟨j, rfl, hj⟩),
          (declaredAt_inside hj.lasting hm.lasting).2 hk, fun m' k' t' hm' hlt hk' => ?_⟩
        rcases (openSince_inner hm.toLevel).1 hm' with rfl | ⟨j', rfl, hj'⟩
        · exact hhere k' t' hk'
        · rw [declaredAt_inside hj'.lasting hm.lasting] at hk'
          simp only [List.length_append, List.length_cons] at hlt
          exact hfirst j' k' t' hj' (by omega) hk'
      | none =>
        rw [hss] at ih
        intro m' k t hm' hk
        rcases (openSince_inner hm.toLevel).1 hm' with rfl | ⟨j, rfl, hj⟩
        · exact hhere k t hk
        · exact ih j k t hj ((declaredAt_inside hj.lasting hm.lasting).1 hk)

end Stacked

theorem Visible.unique {ss : List Scope} (hs : Stacked h ss) {t' : Ty} (ht : Visible h x t)
    (ht' : Visible h x t') : t = t' := by
  obtain ⟨m, k, hm, hk, hfirst⟩ := ht
  obtain ⟨m', k', hm', hk', hfirst'⟩ := ht'
  have hsuffix {j : History} (hj : OpenSince h j) : j <:+ h := by
    rcases hj.opened with rfl | ⟨before, rfl⟩
    · exact List.suffix_refl _
    · exact (List.suffix_cons _ _).trans (List.suffix_append _ _)
  obtain rfl : m = m' := by
    rcases Nat.lt_trichotomy m.length m'.length with hlt | heq | hlt
    · exact absurd hk (hfirst' m k t hm hlt)
    · exact (List.suffix_of_suffix_length_le (hsuffix hm) (hsuffix hm') heq.le).eq_of_length heq
    · exact absurd hk' (hfirst m' k' t' hm' hlt)
  -- in one scope there is one declaration
  obtain rfl := hs.once hm hk hk'
  obtain ⟨-, r, hr⟩ := hk
  obtain ⟨-, r', hr'⟩ := hk'
  rw [hr] at hr'
  simpa using (List.cons.inj (List.append_cancel_left hr')).1

namespace Stacked

variable {s : Scope} {ss : List Scope}

theorem findSome?_eq_none (hs : Stacked h ss) : ss.findSome? (·.get? x) = none ↔
    ∀ m k t, OpenSince h m → ¬ DeclaredAt m k x t := by
  have hfind := hs.findSome? x
  cases hx : ss.findSome? (·.get? x) with
  | none =>
    rw [hx] at hfind
    simp only [true_iff]
    exact hfind
  | some t =>
    rw [hx] at hfind
    obtain ⟨m, k, hm, hk, -⟩ := hfind
    simp only [reduceCtorEq, false_iff]
    exact fun hnone => hnone m k t hm hk

theorem findSome?_eq_some (hs : Stacked h ss) :
    ss.findSome? (·.get? x) = some t ↔ Visible h x t := by
  have hfind := hs.findSome? x
  constructor
  · intro hx
    rwa [hx] at hfind
  · intro ht
    cases hx : ss.findSome? (·.get? x) with
    | none =>
      obtain ⟨m, k, hm, hk, -⟩ := ht
      exact absurd hk (hs.findSome?_eq_none.1 hx m k t hm)
    | some u =>
      rw [hx] at hfind
      rw [ht.unique hs hfind]

theorem isSome_get? (hs : Stacked h (s :: ss)) : (s.get? x).isSome = true ↔
    ∃ m k t, OpenSince h m ∧ pushes m = pops m ∧ DeclaredAt m k x t := by
  obtain ⟨m, hm, hcurrent⟩ := hs.current
  rw [Option.isSome_iff_exists]
  constructor
  · rintro ⟨t, ht⟩
    obtain ⟨k, hk⟩ := (hm.get x t).1 ht
    obtain ⟨hopen, heven⟩ := (hcurrent m).2 rfl
    exact ⟨m, k, t, hopen, heven, hk⟩
  · rintro ⟨m', k, t, hopen, heven, hk⟩
    obtain rfl := (hcurrent m').1 ⟨hopen, heven⟩
    exact ⟨t, (hm.get x t).2 ⟨k, hk⟩⟩

end Stacked

end History

/-! ## The theorem -/

/-- Calls in which every scope that is opened is closed again, and no other one. -/
inductive ScopeCall.Balanced : List ScopeCall → Prop
  | nil : Balanced []
  | declare {x : String} {t : Ty} {cs : List ScopeCall} : Balanced cs →
      Balanced (.declare x t :: cs)
  | nest {cs ds : List ScopeCall} : Balanced cs → Balanced ds →
      Balanced (.push :: (cs ++ .pop :: ds))

namespace Scopes

open History

theorem perform_pop {Γ : Scopes} {s : Scope} {ss : List Scope} (h : Γ.outer = s :: ss) :
    (Γ.perform .pop).1 = ⟨s, ss⟩ := by
  simp only [perform, pop?, h]

theorem perform_pop_eq_false {Γ : Scopes} : (Γ.perform .pop).2 = false ↔ Γ.depth = 1 := by
  rw [← pop?_eq_none, perform]
  cases Γ.pop? <;> simp

theorem perform_declare_eq_false {Γ : Scopes} {x : String} {t : Ty} :
    (Γ.perform (.declare x t)).2 = false ↔ (Γ.current.get? x).isSome = true := by
  cases h : (Γ.current.get? x).isSome <;> simp [perform, declare, Scope.declare, h, Except.map]

theorem perform_eq_self {Γ : Scopes} {c : ScopeCall} (h : (Γ.perform c).2 = false) :
    (Γ.perform c).1 = Γ := by
  cases c with
  | push => cases h
  | pop | declare =>
    simp only [perform] at h ⊢
    split at h
    · cases h
    · rfl

theorem outer_of_balanced {cs : List ScopeCall} (hcs : ScopeCall.Balanced cs) (Γ : Scopes) :
    (Γ.replay cs).1.outer = Γ.outer := by
  induction hcs generalizing Γ with
  | nil => rfl
  | @declare x t cs _ ih =>
    simp only [replay, ih, perform, declare]
    cases Γ.current.declare x t <;> rfl
  | @nest cs ds _ _ ihc ihd =>
    simp only [replay, perform, replay_append, ihd]
    have houter : (Γ.push.replay cs).1.outer = Γ.current :: Γ.outer := ihc Γ.push
    simp only [pop?, houter]

/-- A scope that was opened is closed again, whatever happened in it. -/
theorem replay_enclosed {cs : List ScopeCall} (hcs : ScopeCall.Balanced cs) (Γ : Scopes) :
    (Γ.replay (.push :: (cs ++ [.pop]))).1 = Γ := by
  have houter : (Γ.push.replay cs).1.outer = Γ.current :: Γ.outer := outer_of_balanced hcs Γ.push
  simp only [replay, replay_append]
  exact perform_pop houter

/-- What the history tells about the scopes behind it. -/
structure Recalls (Γ : Scopes) (h : History) : Prop where
  /-- of the scopes that were opened, those that were not closed are open -/
  depth : Γ.depth + pops h = 1 + pushes h
  depth_pos : 1 ≤ Γ.depth
  /-- the global scope is not closed -/
  pop : (Γ.perform .pop).2 = false ↔ Γ.depth = 1
  /-- a name is not declared again in the scope that is open and in which all inner scopes
      are closed -/
  declare : ∀ x t, (Γ.perform (.declare x t)).2 = false ↔
    ∃ m k t', OpenSince h m ∧ pushes m = pops m ∧ DeclaredAt m k x t'
  unchanged : ∀ c, (Γ.perform c).2 = false → (Γ.perform c).1 = Γ
  /-- a scope that is open declared a name once at most -/
  once : ∀ m k k' x t t', OpenSince h m → DeclaredAt m k x t → DeclaredAt m k' x t' → k = k'
  lookup : ∀ x t, Γ.get? x = some t ↔ Visible h x t
  undeclared : ∀ x, Γ.get? x = none ↔ ∀ m k t, OpenSince h m → ¬ DeclaredAt m k x t
  enclosed : ∀ cs, ScopeCall.Balanced cs → (Γ.replay (.push :: (cs ++ [.pop]))).1 = Γ

/-- **Scopes answer from their history.**  Behind every sequence of calls, the depth is that
    of the scopes opened and not closed, the global one included.  A `pop` fails exactly at
    depth one, and a declaration fails exactly if the name was declared since the current
    scope was opened, in this scope and not in one inside it; a call that fails changes
    nothing.  A name has the type of its one declaration in the innermost open scope that
    has one, and no type if none has.  Behind a `push`, balanced calls and a `pop`
    everything is as before. -/
theorem recalls_history (cs : List ScopeCall) :
    let (Γ, h) := Scopes.empty.replay cs
    Γ.Recalls h := by
  rcases hr : Scopes.empty.replay cs with ⟨Γ, h⟩
  have hs : Stacked h (Γ.current :: Γ.outer) := by
    have hall := stacked_replay cs
    rwa [hr] at hall
  exact {
    depth := hs.depth_eq
    depth_pos := Nat.le_add_left 1 _
    pop := perform_pop_eq_false
    declare := fun _ _ => perform_declare_eq_false.trans hs.isSome_get?
    unchanged := fun _ => perform_eq_self
    once := fun _ _ _ _ _ _ => hs.once
    lookup := fun _ _ => hs.findSome?_eq_some
    undeclared := fun _ => hs.findSome?_eq_none
    enclosed := fun _ hcs => replay_enclosed hcs Γ }

/-- A name that a closed scope declared is free again, one that the current scope declared
    is not, and a scope inside hides it until it is closed. -/
theorem recalls_history_shadowed :
    let e := Scopes.empty.replay [.push, .declare "x" .int, .pop, .pop, .declare "x" .bool,
      .declare "x" .int, .push, .declare "x" .string]
    e.2.map Prod.snd = [true, true, true, false, true, false, true, true] ∧ e.1.depth = 2 ∧
      e.1.get? "x" = some .string ∧ Visible e.2 "x" .string ∧
      (e.1.perform .pop).1.get? "x" = some .bool := by
  intro e
  have hrecalls : e.1.Recalls e.2 := recalls_history _
  have hstring : e.1.get? "x" = some .string := by decide
  exact ⟨by decide, by decide, hstring, (hrecalls.lookup "x" .string).1 hstring, by decide⟩

end Scopes

end StackLang
