/-
  What an instruction leaves alone.

  * `Exec.Admits P`: the property `P` of actions holds of the operations on the stack
    and of what is put together from such actions.  What an instruction does besides
    is little: it reads, prints, loads, stores or jumps;
  * `Exec.Within R x` says that the action `x` goes from a state to one that is
    related to it by `R`, whether it succeeds or fails.  If `R` is a preorder that
    allows every change of the stack (a `Frame`), it is enough to look at the few
    places where an instruction touches something else: `Instr.within_execute`;
  * `Linked.ip_of_step`: the next index is the one behind an instruction, or the
    target of its label;
  * `Linked.run_written_of_le`: a run that goes on writes behind what was written before.
    The text in a sink only grows by that (`Sink.text_of_written`).
-/
import StackLang.Proofs.Step

namespace StackLang

/-! ## Properties of actions -/

namespace Exec

variable {W α : Type}

/-- A property of actions that holds of the operations on the stack, and of what is
    put together from actions that have it. -/
structure Admits (P : ∀ α : Type, Exec W α → Prop) : Prop where
  pure : ∀ {α : Type} {a : α}, P α (pure a)
  throw : ∀ {α : Type} {f : Fault}, P α (throw f)
  bind : ∀ {α β : Type} {x : Exec W α} {f : α → Exec W β}, P α x → (∀ a, P β (f a)) → P β (x >>= f)
  push : ∀ {v : Value}, P Unit (push v)
  pop : P Value pop
  dup : P Unit (plain .dup)

namespace Admits

variable {P : ∀ α : Type, Exec W α → Prop} (hP : Admits P)

include hP

theorem popAs {op : Opcode} {expected : Operand} {view : Value → Option α} :
    P α (popAs op expected view) := by
  refine hP.bind hP.pop fun v => ?_
  cases view v
  · exact hP.throw
  · exact hP.pure

theorem binary {x : Exec W α} (hx : P α x) {f : α → α → Except Fault Value} :
    P Unit (binary x f) := by
  refine hP.bind hx fun r => hP.bind hx fun l => ?_
  cases f l r
  · exact hP.throw
  · exact hP.push

theorem onNumbers {op : Typed} {onInts : Int64 → Int64 → Except Fault Value}
    {onFloats : Float → Float → Value} {tag : Tag} :
    P Unit (onNumbers op onInts onFloats tag) := by
  cases tag with
  | int | float => simp only [Exec.onNumbers]; exact hP.binary hP.popAs
  | bool | string => exact hP.throw

/-- All operations with a type tag but one are operations on the stack. -/
theorem typed {op : Typed} {tag : Tag} (hread : op = .read → P Unit (read tag)) :
    P Unit (typed op tag) := by
  cases op with
  | add | sub | mul | div | lt | gt => exact hP.onNumbers
  | eq => cases tag <;> simp only [Exec.typed, equals] <;> exact hP.binary hP.popAs
  | uminus =>
    cases tag with
    | int | float => exact hP.bind hP.popAs fun _ => hP.push
    | bool | string => exact hP.throw
  | read => exact hread rfl

theorem plain {op : Plain} : P Unit (plain op) := by
  cases op with
  | mod | concat | and | or => simp only [Exec.plain]; exact hP.binary hP.popAs
  | not | itof => exact hP.bind hP.popAs fun _ => hP.push
  | dup => exact hP.dup
  | pop => exact hP.bind hP.pop fun _ => hP.pure

theorem constant {tag : Tag} {text : String} : P Unit (constant tag text) := by
  unfold Exec.constant
  cases Value.ofLiteral tag text
  · exact hP.throw
  · exact hP.push

/-- A jump on false is a jump behind an operation on the stack. -/
theorem fjmp {p : Linked} {l : String} (hjump : P Unit (jump p l)) :
    P Unit (named p .fjmp l) := by
  refine hP.bind hP.popAs fun b => ?_
  cases b
  · exact hjump
  · exact hP.pure

end Admits

end Exec

/-! ## Frames -/

/-- The state that an action leaves behind. -/
def stateOf {ε σ α : Type} : EStateM.Result ε σ α → σ
  | .ok _ s => s
  | .error _ s => s

namespace Exec

variable {W α β : Type} {R : State W → State W → Prop}

/-- The action goes from a state to a related one. -/
def Within (R : State W → State W → Prop) (x : Exec W α) : Prop := ∀ s, R s (stateOf (x s))

/-- A relation that composes and allows every change of the stack. -/
structure Frame (R : State W → State W → Prop) : Prop where
  refl : ∀ s, R s s
  trans : ∀ {s t u}, R s t → R t u → R s u
  stack : ∀ s σ, R s { s with stack := σ }

namespace Frame

/-- A part of the state that is not the stack stays as it is. -/
theorem of_field {γ : Type} (field : State W → γ)
    (h : ∀ s σ, field { s with stack := σ } = field s) : Frame fun s t => field t = field s :=
  ⟨fun _ => rfl, fun h₁ h₂ => h₂.trans h₁, h⟩

variable (hR : Frame R)

include hR

theorem bind {x : Exec W α} {f : α → Exec W β} (hx : Within R x) (hf : ∀ a, Within R (f a)) :
    Within R (x >>= f) := by
  intro s
  have hs := hx s
  simp only [Bind.bind, EStateM.bind]
  cases hr : x s with
  | error e t => rw [hr] at hs; exact hs
  | ok a t => rw [hr] at hs; exact hR.trans hs (hf a t)

theorem pop : Within R pop := by
  intro s
  rcases s with ⟨ip, _ | ⟨v, σ⟩, m, i, k⟩
  · exact hR.refl _
  · exact hR.stack _ σ

theorem dup : Within R (plain .dup) := by
  intro s
  rcases s with ⟨ip, _ | ⟨v, σ⟩, m, i, k⟩
  · exact hR.refl _
  · exact hR.stack _ _

/-- The operations on the stack stay within a frame. -/
theorem admits : Admits fun _ x => Within R x where
  pure := hR.refl
  throw := hR.refl
  bind := hR.bind
  push := fun s => hR.stack s _
  pop := hR.pop
  dup := hR.dup

theorem read (hinput : ∀ s i, R s { s with input := i }) {tag : Tag} : Within R (read tag) := by
  intro s
  have hs := hinput s s.input.next.2
  simp only [read_eq]
  cases s.input.next.1 with
  | none => exact hs
  | some text =>
    dsimp only
    cases Value.read tag text
    · exact hs
    · exact hR.trans hs (hR.stack _ _)

theorem print [Writer W]
    (hsink : ∀ s text, R s { s with sink := (Writer.write s.sink text).2 }) {n : Nat} :
    Within R (print n) := by
  intro s
  by_cases hn : s.stack.length < n
  · simp only [print_of_lt hn]
    exact hR.refl s
  · simp only [print_of_le (Nat.le_of_not_lt hn)]
    have hs := hR.trans (hsink s (lineOf n s.stack ++ "\n")) (hR.stack _ (s.stack.drop n))
    generalize Writer.write s.sink (lineOf n s.stack ++ "\n") = w at hs
    rcases w with ⟨_ | _, k⟩ <;> exact hs

theorem jump {p : Linked} {l : String}
    (hjump : ∀ s j, p.target? l = some j → R s { s with ip := j }) : Within R (jump p l) := by
  unfold Exec.jump
  cases hl : p.target? l with
  | none => exact hR.admits.throw
  | some j => exact fun s => hjump s j hl

theorem named {p : Linked} {op : Named} {x : String}
    (hstore : op = .save → ∀ s m, R s { s with store := m })
    (hjump : (Instr.named op x).target? = some x → ∀ s j, p.target? x = some j →
      R s { s with ip := j }) : Within R (named p op x) := by
  cases op with
  | load =>
    refine hR.bind (fun s => hR.refl s) fun s => ?_
    cases s.store.get? x
    · exact hR.admits.throw
    · exact hR.admits.push
  | save => exact hR.bind hR.pop fun _ s => hstore rfl s _
  | jmp => exact hR.jump (hjump rfl)
  | fjmp => exact hR.admits.fjmp (hR.jump (hjump rfl))
  | label => exact hR.admits.pure

end Frame

end Exec

open Exec in
/-- An instruction stays within a frame that allows what it may do besides
    changing the stack. -/
theorem Instr.within_execute {W : Type} [Writer W] {R : State W → State W → Prop} (hR : Frame R)
    {p : Linked} {i : Instr}
    (hinput : i.opcode = .typed .read → ∀ s k, R s { s with input := k })
    (hstore : i.opcode = .named .save → ∀ s m, R s { s with store := m })
    (hsink : i.opcode = .print → ∀ s text, R s { s with sink := (Writer.write s.sink text).2 })
    (hjump : ∀ s l j, i.target? = some l → p.target? l = some j → R s { s with ip := j }) :
    Within R (i.execute p) := by
  cases i with
  | push tag text => exact hR.admits.constant
  | print n => exact hR.print (hsink rfl)
  | plain op => exact hR.admits.plain
  | typed op tag => exact hR.admits.typed fun hop => hR.read (hinput (hop ▸ rfl))
  | named op x => exact hR.named (fun hop => hstore (hop ▸ rfl)) fun hx s j => hjump s x j hx

namespace Linked

variable {W : Type} [Writer W] {p : Linked} {s t : State W}

/-- What a step leads to is related to where it started. -/
theorem step_within {R : State W → State W → Prop} {i : Instr} (hi : p.get? s.ip = some i)
    (hR : Exec.Within R (i.execute p)) (h : p.step s = .next t ∨ ∃ r, p.step s = .failed t r) :
    R { s with ip := s.ip + 1 } t := by
  have hs := hR { s with ip := s.ip + 1 }
  simp only [step, hi, EStateM.run] at h
  cases hx : i.execute p { s with ip := s.ip + 1 } with
  | ok _ s' =>
    rw [hx] at hs
    obtain rfl : s' = t := by simpa [hx] using h
    exact hs
  | error f s' =>
    rw [hx] at hs
    obtain rfl : s' = t := by simpa [hx] using h
    exact hs

/-! ## Control -/

/-- An instruction that was carried out, or failed, goes on at the next one or at its
    label. -/
theorem ip_of_step {i : Instr} (hi : p.get? s.ip = some i)
    (h : p.step s = .next t ∨ ∃ r, p.step s = .failed t r) :
    t.ip = s.ip + 1 ∨ ∃ l, i.target? = some l ∧ p.target? l = some t.ip := by
  have hR : Exec.Frame fun s t : State W =>
      t.ip = s.ip ∨ ∃ l, i.target? = some l ∧ p.target? l = some t.ip := by
    refine ⟨fun s => .inl rfl, ?_, fun s σ => .inl rfl⟩
    rintro s t u hst (htu | htu)
    · rwa [htu]
    · exact .inr htu
  exact step_within hi (i.within_execute hR (fun _ _ _ => .inl rfl) (fun _ _ _ => .inl rfl)
    (fun _ _ _ => .inl rfl) fun s l j hl hj => .inr ⟨l, hl, hj⟩) h

theorem step_ip {i : Instr} (hi : p.get? s.ip = some i) (h : p.step s = .next t) :
    t.ip = s.ip + 1 ∨ ∃ l, i.target? = some l ∧ p.target? l = some t.ip := ip_of_step hi (.inl h)

/-- A jump goes on at its label. -/
theorem step_ip_jmp {l : String} (hi : p.get? s.ip = some (.named .jmp l))
    (h : p.step s = .next t) : p.target? l = some t.ip := by
  cases hl : p.target? l with
  | none =>
    have hfail : p.step s = .failed { s with ip := s.ip + 1 } _ := step_eq_failed hi (by
      simp only [Instr.execute, Exec.named, Exec.jump, hl]; rfl)
    rw [hfail] at h
    cases h
  | some j =>
    rw [step_jmp hi hl] at h
    cases h
    rfl

end Linked

/-! ## Output -/

namespace Writer

variable {W : Type} [Writer W]

/-- The writer behind a number of texts, whether it took them or not. -/
def writeAll (k : W) (texts : List String) : W := texts.foldl (fun k text => (write k text).2) k

theorem writeAll_append (k : W) (ts us : List String) :
    writeAll k (ts ++ us) = writeAll (writeAll k ts) us := List.foldl_append

/-- The writer `k'` is what comes of `k` by writing texts, and perhaps completing the
    output. -/
def Written (k : W) (texts : List String) (k' : W) : Prop :=
  k' = writeAll k texts ∨ k' = (flush (writeAll k texts)).2

theorem Written.refl (k : W) : Written k [] k := .inl rfl

theorem Written.of_writeAll {k k' : W} {ts us : List String} (h : Written (writeAll k ts) us k') :
    Written k (ts ++ us) k' := by
  rwa [Written, writeAll_append]

end Writer

/-- Completing the output of a sink adds nothing. -/
theorem Sink.text_eq_writeAll {k k' : Sink} {ts : List String} (h : Writer.Written k ts k') :
    k'.text = (Writer.writeAll k ts).text := by
  rcases h with rfl | rfl <;> rfl

/-- A sink keeps what was written. -/
theorem Sink.text_of_written {k k' : Sink} {ts : List String} (h : Writer.Written k ts k') :
    ∃ u, k'.text = k.text ++ u := by
  rw [text_eq_writeAll h]
  clear h
  induction ts generalizing k with
  | nil => exact ⟨"", String.append_empty.symm⟩
  | cons t ts ih =>
    obtain ⟨u, hu⟩ : ∃ u, (k.write t).2.text = k.text ++ u := by
      unfold Sink.write
      cases k.room with
      | none => exact ⟨_, rfl⟩
      | some n =>
        dsimp only
        split <;> exact ⟨_, rfl⟩
    obtain ⟨v, hv⟩ := ih (k := (k.write t).2)
    exact ⟨u ++ v, by rw [← String.append_assoc, ← hu]; exact hv⟩

namespace Linked

open Writer

variable {W : Type} [Writer W] {p : Linked} {s t : State W}

/-- A step does nothing to its output but write to it. -/
theorem step_written (h : p.step s = .next t ∨ ∃ r, p.step s = .failed t r) :
    ∃ ts, t.sink = writeAll s.sink ts := by
  have hR : Exec.Frame fun s t : State W => ∃ ts, t.sink = writeAll s.sink ts := by
    refine ⟨fun s => ⟨[], rfl⟩, ?_, fun s σ => ⟨[], rfl⟩⟩
    rintro s t u ⟨ts, ht⟩ ⟨us, hu⟩
    exact ⟨ts ++ us, by rw [hu, ht, writeAll_append]⟩
  cases hi : p.get? s.ip with
  | none => simp [step, hi] at h
  | some i =>
    exact step_within hi (i.within_execute hR (fun _ s _ => hR.refl s) (fun _ s _ => hR.refl s)
      (fun _ s text => ⟨[text], rfl⟩) fun s _ _ _ _ => hR.refl s) h

/-- A run does nothing to its output but write to it, and complete it at the end. -/
theorem run_written (n : Nat) (s : State W) : ∃ ts, Written s.sink ts (p.run n s).1.sink := by
  induction n generalizing s with
  | zero => exact ⟨[], .refl _⟩
  | succ n ih =>
    rw [run]
    cases hs : p.step s with
    | halted => exact ⟨[], .inr rfl⟩
    | next t =>
      obtain ⟨ts, ht⟩ := step_written (.inl hs)
      obtain ⟨us, hu⟩ := ih t
      exact ⟨ts ++ us, .of_writeAll (ht ▸ hu)⟩
    | failed t r =>
      obtain ⟨ts, ht⟩ := step_written (.inr ⟨r, hs⟩)
      exact ⟨ts, .inl ht⟩

/-- A longer run writes behind what a shorter one wrote. -/
theorem run_written_of_le {n m : Nat} (h : n ≤ m) :
    ∃ ts, Written (p.run n s).1.sink ts (p.run m s).1.sink := by
  obtain ⟨k, rfl⟩ := Nat.exists_eq_add_of_le h
  by_cases hend : (p.run n s).2 = .unfinished
  · have hsteps := run_unfinished (t := (p.run n s).1) (by rw [← hend])
    rw [hsteps.run_add k]
    exact run_written k _
  · rw [run_add_of_ended hend]
    exact ⟨[], .refl _⟩

end Linked

end StackLang
