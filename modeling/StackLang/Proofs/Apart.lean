/-
  Runs of a renamed program.

  The machine has one store for all scopes, so that two variables of one name share
  a cell, and a renamed one has a cell of its own.

  * an instruction that names no variable does not look at the store
    (`Instr.blind_execute`);
  * `Linked.apart`: no load of `x` meets a value that the other variable of that
    name stored last.  As long as that is so, a program and the renamed one go in
    lockstep (`Linked.Renames.step`), print the same and have the same outcome up to
    the name (`Program.run_renamed`);
  * if it is not so, they may differ (`Program.run_renamed_shadowed`).
-/
import StackLang.Proofs.Frame
import StackLang.Proofs.Label
import StackLang.Proofs.Recode

namespace StackLang

/-! ## Instructions that do not look at the store -/

/-- The result of an action, with another store. -/
def withStore {W α : Type} (m : Store) :
    EStateM.Result Fault (State W) α → EStateM.Result Fault (State W) α
  | .ok a s => .ok a { s with store := m }
  | .error f s => .error f { s with store := m }

namespace Exec

variable {W α β : Type}

/-- The action does the same with every store, and leaves it alone. -/
def Blind (x : Exec W α) : Prop := ∀ s m, x { s with store := m } = withStore m (x s)

namespace Blind

theorem bind {x : Exec W α} {f : α → Exec W β} (hx : Blind x) (hf : ∀ a, Blind (f a)) :
    Blind (x >>= f) := by
  intro s m
  simp only [Bind.bind, EStateM.bind, hx s m]
  cases x s with
  | error e t => rfl
  | ok a t => exact hf a t m

theorem pop : Blind (W := W) pop := by
  rintro ⟨ip, _ | ⟨v, σ⟩, m₀, i, k⟩ m <;> rfl

theorem dup : Blind (W := W) (plain .dup) := by
  rintro ⟨ip, _ | ⟨v, σ⟩, m₀, i, k⟩ m <;> rfl

theorem admits : Admits fun _ x => Blind (W := W) x where
  pure := fun _ _ => rfl
  throw := fun _ _ => rfl
  bind := bind
  push := fun _ _ => rfl
  pop := pop
  dup := dup

theorem read {tag : Tag} : Blind (W := W) (read tag) := by
  intro s m
  simp only [read_eq]
  cases s.input.next.1 with
  | none => rfl
  | some text =>
    dsimp only
    cases Value.read tag text <;> rfl

theorem print [Writer W] {n : Nat} : Blind (W := W) (print n) := by
  intro s m
  by_cases hn : s.stack.length < n
  · rw [print_of_lt hn, print_of_lt (s := { s with store := m }) hn]
    rfl
  · have hle := Nat.le_of_not_lt hn
    rw [print_of_le hle, print_of_le (s := { s with store := m }) hle]
    generalize Writer.write s.sink (lineOf n s.stack ++ "\n") = w
    rcases w with ⟨_ | _, k⟩ <;> rfl

theorem jump {p : Linked} {l : String} : Blind (W := W) (jump p l) := by
  unfold Exec.jump
  cases p.target? l with
  | none => exact admits.throw
  | some j => exact fun _ _ => rfl

end Blind

end Exec

open Exec in
theorem Instr.blind_execute {W : Type} [Writer W] {p : Linked} {i : Instr}
    (hi : i.cell? = none) : Blind (W := W) (i.execute p) := by
  cases i with
  | push tag text => exact Blind.admits.constant
  | print n => exact .print
  | plain op => exact Blind.admits.plain
  | typed op tag => exact Blind.admits.typed fun _ => .read
  | named op z =>
    cases op with
    | load | save => cases hi
    | jmp => exact .jump
    | fjmp => exact Blind.admits.fjmp .jump
    | label => exact Blind.admits.pure

theorem Instr.execute_congr {W : Type} [Writer W] {p p' : Linked} (h : p'.labels = p.labels)
    (i : Instr) : (i.execute p' : Exec W Unit) = i.execute p := by
  rcases i with _ | _ | _ | _ | ⟨_ | _ | _ | _ | _, l⟩ <;>
    simp only [execute, Exec.named, Exec.jump, Linked.target?, h]

/-! ## Two programs that differ in a name -/

/-- The second program is the first one with `y` for `x` in some loads and saves. -/
structure Linked.Renames (x y : String) (p p' : Linked) : Prop where
  labels : p'.labels = p.labels
  size : p'.code.size = p.code.size
  get? : ∀ k, p'.get? k = p.get? k ∧ (∀ i, p.get? k = some i → i.cell? ≠ some y) ∨
    ∃ op, (op = Named.load ∨ op = .save) ∧ p.get? k = some (.named op x) ∧
      p'.get? k = some (.named op y)

theorem Code.Renames.linked {x y : String} {c c' : List Instr} (h : Code.Renames x y c c')
    {p : Linked} (hp : Code.link c = .ok p) : Linked.Renames x y p ⟨c'.toArray, p.labels⟩ := by
  refine ⟨rfl, by simp [Code.size_of_link hp, h.length], fun k => ?_⟩
  have hk : Linked.get? ⟨c'.toArray, p.labels⟩ k = c'[k]? := by simp [Linked.get?]
  simp only [Code.get?_of_link hp, hk]
  exact h.getElem? k

/-- The programs have different instructions at an index: there stands a use of the
    renamed variable. -/
def Linked.differs (p p' : Linked) (k : Nat) : Bool := p'.get? k != p.get? k

/-- What stands at an index: nothing, an instruction that names no variable, or a
    use of a variable. -/
theorem Linked.Renames.get?_cases {x y : String} {p p' : Linked} (h : Linked.Renames x y p p')
    (k : Nat) : (p.get? k = none ∧ p'.get? k = none) ∨
      (∃ i, i.cell? = none ∧ p.get? k = some i ∧ p'.get? k = some i) ∨
      ∃ op z, (op = Named.load ∨ op = .save) ∧ (z = x ∨ z ≠ y) ∧ p.get? k = some (.named op z) ∧
        p'.get? k = some (.named op (newName (p.differs p' k) x y z)) := by
  rcases h.get? k with ⟨heq, hy⟩ | ⟨op, hop, hk, hk'⟩
  · have hdiff : p.differs p' k = false := by simp [differs, heq]
    cases hk : p.get? k with
    | none => exact .inl ⟨rfl, by rw [heq, hk]⟩
    | some i =>
      rw [hk] at heq
      refine .inr ?_
      rw [hdiff]
      simp only [newName_false]
      rcases i with _ | _ | _ | _ | ⟨op, z⟩
      · exact .inl ⟨_, rfl, rfl, heq⟩
      · exact .inl ⟨_, rfl, rfl, heq⟩
      · exact .inl ⟨_, rfl, rfl, heq⟩
      · exact .inl ⟨_, rfl, rfl, heq⟩
      · have hz := hy _ hk
        cases op with
        | load => exact .inr ⟨_, z, .inl rfl, .inr fun he => hz (by rw [he]; rfl), rfl, heq⟩
        | save => exact .inr ⟨_, z, .inr rfl, .inr fun he => hz (by rw [he]; rfl), rfl, heq⟩
        | jmp | fjmp | label => exact .inl ⟨_, rfl, rfl, heq⟩
  · refine .inr (.inr ⟨op, x, hop, .inl rfl, hk, ?_⟩)
    by_cases hxy : x = y
    · subst hxy
      have hdiff : p.differs p' k = false := by simp [differs, hk, hk']
      rw [hdiff, newName_false, hk']
    · have hdiff : p.differs p' k = true := by simpa [differs, hk, hk'] using Ne.symm hxy
      rw [hdiff, newName_true_self, hk']

/-! ## The two stores -/

/-- The stores of the two programs.  `last` says which of the variables called `x`
    stored a value last, if one did. -/
structure Store.Apart (x y : String) (last : Option Bool) (m m' : Store) : Prop where
  other : ∀ z, z ≠ x → z ≠ y → m'.get? z = m.get? z
  unset : last = none → m.get? x = none ∧ m'.get? x = none ∧ m'.get? y = none
  latest : ∀ own, last = some own → m'.get? (newName own x y x) = m.get? x

namespace Store.Apart

variable {x y : String} {last : Option Bool} {m m' : Store}

theorem empty : Store.Apart x y none {} {} :=
  ⟨fun _ _ _ => rfl, fun _ => ⟨rfl, rfl, rfl⟩, nofun⟩

theorem newName_cases (x y : String) (own : Bool) :
    newName own x y x = x ∨ newName own x y x = y := by
  cases own <;> simp

/-- A variable that stored last, or before any other, loads what the shared cell
    holds. -/
theorem load (h : Store.Apart x y last m m') {own : Bool} (hl : last.all (· == own)) :
    m'.get? (newName own x y x) = m.get? x := by
  cases last with
  | none =>
    obtain ⟨hx, hx', hy'⟩ := h.unset rfl
    rcases newName_cases x y own with he | he <;> rw [he, hx] <;> assumption
  | some o =>
    obtain rfl : o = own := by simpa using hl
    exact h.latest o rfl

theorem save (h : Store.Apart x y last m m') (own : Bool) (v : Value) :
    Store.Apart x y (some own) (m.set x v) (m'.set (newName own x y x) v) := by
  refine ⟨fun z hzx hzy => ?_, nofun, fun o ho => ?_⟩
  · have hz : z ≠ newName own x y x := by
      rcases newName_cases x y own with he | he <;> rw [he] <;> assumption
    rw [Store.get?_set_of_ne _ _ hz, Store.get?_set_of_ne _ _ hzx, h.other z hzx hzy]
  · obtain rfl := Option.some.inj ho
    rw [Store.get?_set_self, Store.get?_set_self]

theorem set (h : Store.Apart x y last m m') {z : String} (hx : z ≠ x) (hy : z ≠ y) (v : Value) :
    Store.Apart x y last (m.set z v) (m'.set z v) := by
  refine ⟨fun w hwx hwy => ?_, fun hn => ?_, fun o ho => ?_⟩
  · by_cases hwz : w = z
    · rw [hwz, Store.get?_set_self, Store.get?_set_self]
    · rw [Store.get?_set_of_ne _ _ hwz, Store.get?_set_of_ne _ _ hwz, h.other w hwx hwy]
  · simp only [Store.get?_set_of_ne _ v (Ne.symm hx), Store.get?_set_of_ne _ v (Ne.symm hy)]
    exact h.unset hn
  · have hz : newName o x y x ≠ z := by
      rcases newName_cases x y o with he | he <;> rw [he]
      · exact hx.symm
      · exact hy.symm
    rw [Store.get?_set_of_ne _ _ hz, Store.get?_set_of_ne _ _ hx.symm, h.latest o ho]

end Store.Apart

/-! ## Lockstep -/

/-- The fault of a load names its variable. -/
def Fault.rename (x y : String) (f : Fault) : Fault :=
  if f = .uninitialized x then .uninitialized y else f

/-- The same outcome, or a failure at the same use of `x`, which is now called
    `y`. -/
inductive Outcome.Renames (x y : String) : Outcome → Outcome → Prop
  | same {o} : Renames x y o o
  | use {k op f} : Renames x y (.failed (.located k (Instr.named op x).text f))
      (.failed (.located k (Instr.named op y).text (f.rename x y)))

theorem Outcome.Renames.of_newName {x y z : String} {own : Bool} {k : Nat} {op : Named}
    {f f' : Fault} (hf : f' = f.rename z (newName own x y z)) :
    Outcome.Renames x y (.failed (.located k (Instr.named op z).text f))
      (.failed (.located k (Instr.named op (newName own x y z)).text f')) := by
  by_cases h : own = true ∧ z = x
  · rw [hf, newName, if_pos h, h.2]
    exact .use
  · have hz : newName own x y z = z := if_neg h
    have hsame : f.rename z z = f := by
      unfold Fault.rename
      split
      · next he => exact he.symm
      · rfl
    rw [hf, hz, hsame]
    exact .same

namespace Linked

variable {W : Type} {x y : String} {p p' : Linked} {last : Option Bool} {s : State W} {m' : Store}

/-- Which of the variables called `x` stored a value last, behind the next
    instruction. -/
def lastSave (p : Linked) (x : String) (own : Nat → Bool) (last : Option Bool) (s : State W) :
    Option Bool :=
  if p.get? s.ip = some (.named .save x) then some (own s.ip) else last

/-- No load of `x` within `fuel` steps meets a value that the other variable of that
    name stored.  `own` tells their uses apart. -/
def apart [Writer W] (p : Linked) (x : String) (own : Nat → Bool) :
    Nat → Option Bool → State W → Bool
  | 0, _, _ => true
  | fuel + 1, last, s =>
    (p.get? s.ip != some (.named .load x) || last.all (· == own s.ip)) &&
      match p.step s with
      | .next t => apart p x own fuel (p.lastSave x own last s) t
      | _ => true

/-- What two programs in lockstep come to by one step. -/
inductive Lockstep (x y : String) (last : Option Bool) : Step W → Step W → Prop
  | halted : Lockstep x y last .halted .halted
  | next {t m'} : t.store.Apart x y last m' →
      Lockstep x y last (.next t) (.next { t with store := m' })
  | failed {t m' r r'} : Outcome.Renames x y (.failed r) (.failed r') →
      Lockstep x y last (.failed t r) (.failed { t with store := m' } r')

variable [Writer W]

theorem Renames.step_blind (h : Linked.Renames x y p p') (hm : s.store.Apart x y last m')
    {i : Instr} (hi : i.cell? = none) (hp : p.get? s.ip = some i) (hp' : p'.get? s.ip = some i) :
    Lockstep x y last (p.step s) (p'.step { s with store := m' }) := by
  have hblind := i.blind_execute hi (p := p) { s with ip := s.ip + 1 }
  -- with its own store, the result keeps that store
  have hkeep := hblind s.store
  have hother := hblind m'
  simp only [step, hp, hp', i.execute_congr h.labels, EStateM.run, hother]
  cases hx : i.execute p { s with ip := s.ip + 1 } with
  | ok _ t =>
    simp only [hx, withStore, EStateM.Result.ok.injEq, true_and] at hkeep
    refine .next ?_
    rw [hkeep]
    exact hm
  | error f t => exact .failed .same

theorem lockstep_load (hm : s.store.Apart x y last m') {z : String} {own : Bool}
    (hz : z = x ∨ z ≠ y) (hl : z = x → last.all (· == own))
    (hp : p.get? s.ip = some (.named .load z))
    (hp' : p'.get? s.ip = some (.named .load (newName own x y z))) :
    Lockstep x y last (p.step s) (p'.step { s with store := m' }) := by
  have hget : m'.get? (newName own x y z) = s.store.get? z := by
    by_cases hzx : z = x
    · rw [hzx]; exact hm.load (hl hzx)
    · rw [newName_of_ne hzx]
      exact hm.other z hzx (hz.resolve_left hzx)
  cases hv : s.store.get? z with
  | some v =>
    rw [step_load hp hv, step_load (s := { s with store := m' }) hp' (hget.trans hv)]
    exact .next (t := { s with ip := s.ip + 1, stack := v :: s.stack }) hm
  | none =>
    rw [step_load_unset hp hv, step_load_unset (s := { s with store := m' }) hp' (hget.trans hv)]
    exact .failed (t := { s with ip := s.ip + 1 }) (.of_newName (if_pos rfl).symm)

theorem lockstep_save (hm : s.store.Apart x y last m') {z : String} {own : Bool}
    (hz : z = x ∨ z ≠ y) (hp : p.get? s.ip = some (.named .save z))
    (hp' : p'.get? s.ip = some (.named .save (newName own x y z))) :
    Lockstep x y (if z = x then some own else last) (p.step s)
      (p'.step { s with store := m' }) := by
  by_cases hσ : s.stack = []
  · rw [step_store_empty hp hσ, step_store_empty (s := { s with store := m' }) hp' hσ]
    exact .failed (t := { s with ip := s.ip + 1 }) (.of_newName rfl)
  · obtain ⟨v, σ, hσ⟩ := List.exists_cons_of_ne_nil hσ
    have hstore : Store.Apart x y (if z = x then some own else last) (s.store.set z v)
        (m'.set (newName own x y z) v) := by
      by_cases hzx : z = x
      · rw [if_pos hzx, hzx]
        exact hm.save own v
      · rw [if_neg hzx, newName_of_ne hzx]
        exact hm.set hzx (hz.resolve_left hzx) v
    rw [step_store hp hσ, step_store (s := { s with store := m' }) hp' hσ]
    exact .next (t := { s with ip := s.ip + 1, stack := σ, store := s.store.set z v }) hstore

/-- **One step keeps the programs in lockstep**, unless it loads a value that the
    other variable of that name stored. -/
theorem Renames.step (h : Linked.Renames x y p p') (hm : s.store.Apart x y last m')
    (hl : p.get? s.ip = some (.named .load x) → last.all (· == p.differs p' s.ip)) :
    Lockstep x y (p.lastSave x (p.differs p') last s) (p.step s)
      (p'.step { s with store := m' }) := by
  rcases h.get?_cases s.ip with ⟨hp, hp'⟩ | ⟨i, hi, hp, hp'⟩ | ⟨op, z, rfl | rfl, hz, hp, hp'⟩
  · rw [step_eq_halted hp, step_eq_halted (s := { s with store := m' }) hp']
    exact .halted
  · have hlast : p.lastSave x (p.differs p') last s = last := by
      refine if_neg fun hsave => ?_
      rw [Option.some.inj (hp.symm.trans hsave)] at hi
      cases hi
    rw [hlast]
    exact h.step_blind hm hi hp hp'
  · have hlast : p.lastSave x (p.differs p') last s = last := by
      simp [lastSave, hp]
    rw [hlast]
    exact lockstep_load hm hz (fun hzx => hl (by rw [hp, hzx])) hp hp'
  · have hlast : p.lastSave x (p.differs p') last s =
        if z = x then some (p.differs p' s.ip) else last := by
      simp [lastSave, hp]
    rw [hlast]
    exact lockstep_save hm hz hp hp'

/-- **Programs that stay apart print the same and have the same outcome**, up to the
    name of the variable. -/
theorem Renames.run (h : Linked.Renames x y p p') (n : Nat) : ∀ {last : Option Bool} {s : State W}
    {m' : Store}, s.store.Apart x y last m' → p.apart x (p.differs p') n last s →
      (p'.run n { s with store := m' }).1.sink = (p.run n s).1.sink ∧
        Outcome.Renames x y (p.run n s).2 (p'.run n { s with store := m' }).2 := by
  induction n with
  | zero => exact fun _ _ => ⟨rfl, .same⟩
  | succ n ih =>
    intro last s m' hm ha
    simp only [apart, Bool.and_eq_true, Bool.or_eq_true, bne_iff_ne] at ha
    have hstep := h.step hm fun hp => ha.1.resolve_left (· hp)
    simp only [Linked.run]
    cases hs : p.step s with
    | halted =>
      rw [hs] at hstep
      cases hs' : p'.step { s with store := m' } with
      | halted =>
        refine ⟨rfl, ?_⟩
        simp only [finish, h.size]
        exact .same
      | next | failed => rw [hs'] at hstep; cases hstep
    | next t =>
      rw [hs] at hstep ha
      generalize p'.step { s with store := m' } = r at hstep
      cases hstep with
      | next hm' => exact ih hm' ha.2
    | failed t r =>
      rw [hs] at hstep
      generalize p'.step { s with store := m' } = r' at hstep
      cases hstep with
      | failed ho => exact ⟨rfl, ho⟩

end Linked

/-! ## Programs -/

theorem Program.compile_renamed {x y : String} {p p' : Program} {code : List Instr} {own : Bool}
    (h : p.compile = .ok code) (hr : Stmt.RenamesAll x y false p p' own)
    (hy : y ∉ Stmt.namesAll p) :
    ∃ code', p'.compile = .ok code' ∧ Code.Renames x y code code' := by
  obtain ⟨hc, hg⟩ := Program.compile_eq_ok.1 h
  obtain ⟨Γ, n, he⟩ := Program.gen_eq_ok_iff.1 hg
  obtain ⟨code', Γ', he', hcode, -⟩ := he.renames hr .empty hy
  have hc' : p'.check.2 = [] := (hr.check .empty hy hc).1
  exact ⟨code', Program.compile_eq_ok.2 ⟨hc', Program.gen_eq_ok_iff.2 ⟨Γ', n, he'⟩⟩, hcode⟩

/-- **Renaming some declarations of `x`, with their uses, to a name that does not
    occur.**  The renamed program is accepted.  As long as no load of `x` meets a value
    that the other variable of that name stored last, it prints the same and has the
    same outcome, up to the name. -/
theorem Program.run_renamed {x y : String} {p p' : Program} {code : List Instr} {own : Bool}
    (h : p.compile = .ok code) (hr : Stmt.RenamesAll x y false p p' own)
    (hy : y ∉ Stmt.namesAll p) :
    ∃ code' L L', p'.compile = .ok code' ∧ Code.Renames x y code code' ∧
      Code.link code = .ok L ∧ Code.link code' = .ok L' ∧
      ∀ {W : Type} [Writer W] (inputs : List String) (k : W) (n : Nat),
        let start : State W := { input := .queue inputs, sink := k }
        L.apart x (L.differs L') n none start →
          (L'.run n start).1.sink = (L.run n start).1.sink ∧
            Outcome.Renames x y (L.run n start).2 (L'.run n start).2 := by
  obtain ⟨code', hcompile, hcode⟩ := Program.compile_renamed h hr hy
  obtain ⟨L, hL⟩ := Program.link_of_gen (Program.compile_eq_ok.1 h).2
  refine ⟨code', L, _, hcompile, hcode, hL, hcode.link hL, fun inputs k n ha => ?_⟩
  exact (hcode.linked hL).run n (s := { input := .queue inputs, sink := k }) .empty ha

/-- Two variables called `x`, of which each is stored before it is loaded, the outer
    one also behind the block. -/
theorem Program.run_renamed_restored :
    let p : Program := [.decl .int ["x"], .assign "x" (.lit .int "1"), .write [.var "x"],
      .block [.decl .int ["x"], .read ["x"], .write [.var "x"]], .assign "x" (.lit .int "3"),
      .write [.var "x"]]
    let p' : Program := [.decl .int ["x"], .assign "x" (.lit .int "1"), .write [.var "x"],
      .block [.decl .int ["y"], .read ["y"], .write [.var "y"]], .assign "x" (.lit .int "3"),
      .write [.var "x"]]
    let start : State := { input := .queue ["2"], sink := {} }
    Stmt.RenamesAll "x" "y" false p p' false ∧ "y" ∉ Stmt.namesAll p ∧
      ∃ code code' L L', p.compile = .ok code ∧ p'.compile = .ok code' ∧
        Code.link code = .ok L ∧ Code.link code' = .ok L' ∧
        L.apart "x" (L.differs L') 20 none start ∧
        (L.run 20 start).1.sink.text = "1\n2\n3\n" ∧
        (L'.run 20 start).1.sink = (L.run 20 start).1.sink ∧
        Outcome.Renames "x" "y" (L.run 20 start).2 (L'.run 20 start).2 := by
  intro p p' start
  have hr : Stmt.RenamesAll "x" "y" false p p' false := by
    simp [p, p', Stmt.RenamesAll, Stmt.Renames, Expr.rename, newName]
  have hy : "y" ∉ Stmt.namesAll p := by decide
  have hp : p.compile = .ok [.push .int "1", .named .save "x", .named .load "x", .print 1,
      .typed .read .int, .named .save "x", .named .load "x", .print 1, .push .int "3",
      .named .save "x", .named .load "x", .print 1] := rfl
  obtain ⟨code', L, L', hc', -, hL, hL', hrun⟩ := Program.run_renamed hp hr hy
  obtain rfl := Except.ok.inj ((show p'.compile = .ok _ from rfl).symm.trans hc')
  obtain rfl := Except.ok.inj ((show Code.link _ = .ok ⟨_, []⟩ from rfl).symm.trans hL)
  obtain rfl := Except.ok.inj ((show Code.link _ = .ok ⟨_, []⟩ from rfl).symm.trans hL')
  have ha := hrun ["2"] ({} : Sink) 20 (by decide +kernel)
  exact ⟨hr, hy, _, _, _, _, hp, hc', hL, hL', by decide +kernel, by decide +kernel, ha⟩

/-- What the two conditions keep out.  The inner `x` leaves its value in the cell of the
    outer one, so that the renamed program prints another line.  And where the step of
    a loop declares an `x` in front of which the generator comes to the body, the `x`
    in the body is the outer one to the generator only: without the outer one the
    program has no code. -/
theorem Program.run_renamed_shadowed :
    (let p : Program := [.decl .int ["x"], .assign "x" (.lit .int "1"),
      .block [.decl .int ["x"], .assign "x" (.lit .int "2")], .write [.var "x"]]
    let p' : Program := [.decl .int ["x"], .assign "x" (.lit .int "1"),
      .block [.decl .int ["y"], .assign "y" (.lit .int "2")], .write [.var "x"]]
    Stmt.RenamesAll "x" "y" false p p' false ∧ "y" ∉ Stmt.namesAll p ∧
      p.compile.map (Code.run 10 · []) = .ok ⟨["2"], none⟩ ∧
      p'.compile.map (Code.run 10 · []) = .ok ⟨["1"], none⟩) ∧
    (let loop : Stmt := .forLoop none (some (.lit .bool "false")) (some (.decl .int ["x"]))
      (.assign "x" (.lit .int "1"))
    (∃ code, Program.compile [.block [.decl .int ["x"], loop]] = .ok code) ∧
      Program.compile [.block [.decl .int ["y"], loop]] = .error [.notDeclared "x"]) := by
  refine ⟨⟨?_, by decide, by rfl, by rfl⟩, ⟨_, rfl⟩, rfl⟩
  simp [Stmt.RenamesAll, Stmt.Renames, Expr.rename, newName]

end StackLang
