/-
  Checked programs do not go wrong.

  * `Instr.FailsWith` lists the faults that an instruction may end in if its
    operands have the right types: a constant that does not parse, a variable
    that was never stored, an input that is missing or does not parse, a division
    by zero and output that cannot be written;
  * `Instr.Takes.sound_execute`: an instruction on a stack of the right types leaves one,
    or ends in one of these;
  * `Program.sound`: throughout the run of a checked program every variable holds
    a value of its declared type, and every instruction finds operands of the
    types it asks for, so that none is ever converted silently.
-/
import StackLang.Proofs.Label
import StackLang.Proofs.Typed

namespace StackLang

/-! ## Values and their tags -/

namespace Value

theorem toInt?_of_tag {v : Value} (h : v.tag = .int) : ∃ n, v.toInt? = some n := by
  cases v <;> first | exact ⟨_, rfl⟩ | cases h

theorem toFloat?_of_tag {v : Value} (h : v.tag = .int ∨ v.tag = .float) :
    ∃ x, v.toFloat? = some x := by
  cases v <;> first | exact ⟨_, rfl⟩ | rcases h with h | h <;> cases h

theorem toBool?_of_tag {v : Value} (h : v.tag = .bool) : ∃ b, v.toBool? = some b := by
  cases v <;> first | exact ⟨_, rfl⟩ | cases h

theorem toString?_of_tag {v : Value} (h : v.tag = .string) : ∃ s, v.toString? = some s := by
  cases v <;> first | exact ⟨_, rfl⟩ | cases h

theorem tag_of_read {tag : Tag} {text : String} {v : Value} (h : read tag text = .ok v) :
    v.tag = tag := by
  cases tag with
  | int =>
    simp only [read] at h
    cases hr : Number.readInteger (Text.trim text.toList) <;> rw [hr] at h <;> cases h
    rfl
  | float =>
    simp only [read] at h
    cases hr : Number.readFloat (Text.trim text.toList) <;> rw [hr] at h <;> cases h
    rfl
  | bool =>
    simp only [read] at h
    cases hr : readBool (Text.trim text.toList) <;> rw [hr] at h <;> cases h
    rfl
  | string => cases h; rfl

theorem tag_of_ofLiteral {tag : Tag} {text : String} {v : Value} (h : ofLiteral tag text = .ok v) :
    v.tag = tag := by
  cases tag with
  | string => cases h; rfl
  | int | float | bool => exact tag_of_read h

end Value

/-! ## One instruction -/

/-- The faults that an instruction may end in although its operands have the
    right types. -/
inductive Instr.FailsWith : Instr → Fault → Prop
  | constant {tag text cause} : Value.ofLiteral tag text = .error cause →
      FailsWith (.push tag text) (.malformed (.badConstant tag text cause))
  | load {x} : FailsWith (.named .load x) (.uninitialized x)
  | input {tag} : FailsWith (.typed .read tag) .inputExhausted
  | badInput {tag text} : FailsWith (.typed .read tag) (.badInput text tag)
  | div : FailsWith (.typed .div .int) .divisionByZero
  | mod : FailsWith (.plain .mod) .divisionByZero
  | output {n cause} : FailsWith (.print n) (.outputFailed cause)

/-- Every variable that was stored has a value of its declared type. -/
def Store.Typed (Δ : List (String × Ty)) (m : Store) : Prop :=
  ∀ x v, m.get? x = some v → (x, v.tag.ty) ∈ Δ

variable {W : Type}

/-- The values on the stack and in the store have the given types. -/
structure State.Typed (Δ : List (String × Ty)) (τ : List Tag) (s : State W) : Prop where
  stack : s.stack.map Value.tag = τ
  store : s.store.Typed Δ

/-- What an instruction on operands of the right types leads to. -/
def Instr.Sound (Δ : List (String × Ty)) (i : Instr) (τ : List Tag) :
    EStateM.Result Fault (State W) Unit → Prop
  | .ok _ t => t.Typed Δ τ
  | .error f t => i.FailsWith f ∧ t.store.Typed Δ

variable {Δ : List (String × Ty)} {s : State W} {τ : List Tag} {i : Instr}

/-- An instruction that changes the stack only. -/
theorem Instr.sound_of_gives {x : Exec W Unit} {b : List Value} {r : Except Fault (List Value)}
    (h : x.Gives b s r) (hs : s.store.Typed Δ) (hok : ∀ σ, r = .ok σ → σ.map Value.tag = τ)
    (herror : ∀ f, r = .error f → i.FailsWith f) : i.Sound Δ τ (x.run s) := by
  cases r with
  | ok σ =>
    rw [show x.run s = _ from h]
    exact ⟨hok σ rfl, hs⟩
  | error f =>
    obtain ⟨σ, hσ, -⟩ := h
    rw [hσ]
    exact ⟨herror f rfl, hs⟩

theorem Instr.sound_binary {α : Type} {op : Opcode} {expected : Operand} {view : Value → Option α}
    {f : α → α → Except Fault Value} {t tag : Tag} (hs : s.Typed Δ (t :: t :: τ))
    (hview : ∀ {v : Value}, v.tag = t → ∃ a, view v = some a)
    (hok : ∀ a b v, f a b = .ok v → v.tag = tag)
    (herror : ∀ a b g, f a b = .error g → i.FailsWith g) :
    i.Sound Δ (tag :: τ) ((Exec.binary (Exec.popAs op expected view) f).run s) := by
  obtain ⟨r, _, hσ, hr, h⟩ := List.map_eq_cons_iff.1 hs.stack
  obtain ⟨l, σ, rfl, hl, rfl⟩ := List.map_eq_cons_iff.1 h
  obtain ⟨b, hb⟩ := hview hr
  obtain ⟨a, ha⟩ := hview hl
  have hgives : Exec.Gives (Exec.binary (Exec.popAs op expected view) f) σ s _ :=
    Exec.gives_binary hσ
  have hvalue : onOperands (Value.operand op expected view) f l r = f a b := by
    simp only [onOperands, Value.operand, ha, hb, bind, Except.bind]
  rw [hvalue] at hgives
  refine sound_of_gives hgives hs.store ?_ ?_
  · intro σ' hσ'
    cases hf : f a b with
    | ok v =>
      rw [hf] at hσ'
      cases hσ'
      simp [hok a b v hf]
    | error g => rw [hf] at hσ'; cases hσ'
  · intro g hg
    cases hf : f a b with
    | ok v => rw [hf] at hg; cases hg
    | error g' =>
      rw [hf] at hg
      cases hg
      exact herror a b g hf

theorem Instr.sound_total {α : Type} {op : Opcode} {expected : Operand} {view : Value → Option α}
    {f : α → α → Value} {t tag : Tag} (hs : s.Typed Δ (t :: t :: τ))
    (hview : ∀ {v : Value}, v.tag = t → ∃ a, view v = some a) (hf : ∀ a b, (f a b).tag = tag) :
    i.Sound Δ (tag :: τ)
      ((Exec.binary (Exec.popAs op expected view) fun a b => .ok (f a b)).run s) := by
  refine sound_binary hs hview ?_ ?_
  · rintro a b _ ⟨⟩
    exact hf a b
  · rintro _ _ _ ⟨⟩

theorem Instr.sound_unary {α : Type} {op : Opcode} {expected : Operand} {view : Value → Option α}
    {f : α → Value} {t tag : Tag} (hs : s.Typed Δ (t :: τ))
    (hview : ∀ {v : Value}, v.tag = t → ∃ a, view v = some a) (hf : ∀ a, (f a).tag = tag) :
    i.Sound Δ (tag :: τ)
      (EStateM.run (do Exec.push (f (← Exec.popAs op expected view))) s) := by
  obtain ⟨v, σ, hσ, hv, rfl⟩ := List.map_eq_cons_iff.1 hs.stack
  obtain ⟨a, ha⟩ := hview hv
  have hgives := Exec.gives_unary op expected view f hσ
  simp only [Value.operand, ha] at hgives
  refine sound_of_gives hgives hs.store ?_ ?_
  · intro σ' hσ'
    cases hσ'
    simp [hf a]
  · intro g hg
    cases hg

namespace Instr

theorem sound_plain {op : Plain} {tag : Tag} (hop : op.result? = some tag)
    (hs : s.Typed Δ (op.operands ++ τ)) :
    (Instr.plain op).Sound Δ (tag :: τ) ((Exec.plain op).run s) := by
  cases op with
  | mod =>
    cases hop
    refine sound_binary hs Value.toInt?_of_tag ?_ ?_
    · intro a b v hv
      unfold Exec.remainder at hv
      split at hv <;> cases hv
      rfl
    · intro a b g hg
      unfold Exec.remainder at hg
      split at hg <;> cases hg
      exact .mod
  | concat =>
    cases hop
    simp only [Exec.plain]
    exact sound_total hs Value.toString?_of_tag fun _ _ => rfl
  | and | or =>
    cases hop
    simp only [Exec.plain]
    exact sound_total hs Value.toBool?_of_tag fun _ _ => rfl
  | not =>
    cases hop
    exact sound_unary hs Value.toBool?_of_tag fun _ => rfl
  | itof =>
    cases hop
    exact sound_unary hs (fun hv => Value.toFloat?_of_tag (.inl hv)) fun _ => rfl
  | dup | pop => cases hop

theorem sound_onNumbers {op : Typed} {onInts : Int64 → Int64 → Except Fault Value}
    {onFloats : Float → Float → Value} {t tag : Tag} (ht : t = .int ∨ t = .float)
    (hs : s.Typed Δ (t :: t :: τ)) (hints : t = .int → ∀ a b v, onInts a b = .ok v → v.tag = tag)
    (hfloats : t = .float → ∀ a b, (onFloats a b).tag = tag)
    (herror : t = .int → ∀ a b g, onInts a b = .error g → (Instr.typed op t).FailsWith g) :
    (Instr.typed op t).Sound Δ (tag :: τ) ((Exec.onNumbers op onInts onFloats t).run s) := by
  rcases ht with rfl | rfl
  · exact sound_binary hs Value.toInt?_of_tag (hints rfl) (herror rfl)
  · simp only [Exec.onNumbers]
    exact sound_total hs (fun hv => Value.toFloat?_of_tag (.inr hv)) (hfloats rfl)

theorem sound_read {tag : Tag} (hs : s.Typed Δ τ) :
    (Instr.typed .read tag).Sound Δ (tag :: τ) ((Exec.read tag).run s) := by
  simp only [EStateM.run, Exec.read_eq]
  cases s.input.next.1 with
  | none => exact ⟨.input, hs.store⟩
  | some text =>
    dsimp only
    cases hv : Value.read tag text with
    | error e => exact ⟨.badInput, hs.store⟩
    | ok v =>
      refine ⟨?_, hs.store⟩
      show (v :: s.stack).map Value.tag = _
      rw [List.map_cons, hs.stack, Value.tag_of_read hv]

theorem sound_typed {op : Typed} {tag : Tag} (hop : op.Accepts tag)
    (hs : s.Typed Δ (op.operands tag ++ τ)) :
    (Instr.typed op tag).Sound Δ (op.result tag :: τ) ((Exec.typed op tag).run s) := by
  cases op with
  | add | sub | mul =>
    exact sound_onNumbers hop hs (by rintro rfl _ _ _ ⟨⟩; rfl) (by rintro rfl _ _; rfl)
      (by rintro rfl _ _ _ ⟨⟩)
  | lt | gt =>
    exact sound_onNumbers hop hs (by rintro rfl _ _ _ ⟨⟩; rfl) (by rintro rfl _ _; rfl)
      (by rintro rfl _ _ _ ⟨⟩)
  | div =>
    refine sound_onNumbers hop hs ?_ (by rintro rfl _ _; rfl) ?_
    · rintro rfl a b v hv
      unfold Exec.divide at hv
      split at hv <;> cases hv
      rfl
    · rintro rfl a b g hg
      unfold Exec.divide at hg
      split at hg <;> cases hg
      exact .div
  | eq =>
    cases tag <;> simp only [Exec.typed, Exec.equals]
    case int => exact sound_total hs Value.toInt?_of_tag fun _ _ => rfl
    case float =>
      exact sound_total hs (fun hv => Value.toFloat?_of_tag (.inr hv)) fun _ _ => rfl
    case bool => exact sound_total hs Value.toBool?_of_tag fun _ _ => rfl
    case string => exact sound_total hs Value.toString?_of_tag fun _ _ => rfl
  | uminus =>
    rcases hop with rfl | rfl
    · exact sound_unary hs Value.toInt?_of_tag fun _ => rfl
    · exact sound_unary hs (fun hv => Value.toFloat?_of_tag (.inr hv)) fun _ => rfl
  | read => exact sound_read hs

theorem sound_print [Writer W] {τ₁ : List Tag} (hs : s.Typed Δ (τ₁ ++ τ)) :
    (Instr.print τ₁.length).Sound Δ τ ((Exec.print τ₁.length).run s) := by
  have hlen : τ₁.length ≤ s.stack.length := by
    have := congrArg List.length hs.stack
    simp only [List.length_map, List.length_append] at this
    omega
  have hdrop : (s.stack.drop τ₁.length).map Value.tag = τ := by
    rw [List.map_drop, hs.stack, List.drop_left]
  simp only [EStateM.run, Exec.print_of_le hlen]
  generalize Writer.write s.sink (Exec.lineOf τ₁.length s.stack ++ "\n") = w
  rcases w with ⟨_ | _, k⟩
  · exact ⟨.output, hs.store⟩
  · exact ⟨hdrop, hs.store⟩

theorem sound_save {x : String} {tag : Tag} {p : Linked} (hx : (x, tag.ty) ∈ Δ)
    (hs : s.Typed Δ (tag :: τ)) :
    (Instr.named .save x).Sound Δ τ ((Exec.named p .save x).run s) := by
  obtain ⟨v, σ, hσ, rfl, rfl⟩ := List.map_eq_cons_iff.1 hs.stack
  simp only [Exec.named, Exec.pop, EStateM.run, bind, EStateM.bind, get, getThe, MonadStateOf.get,
    get_apply, hσ, set, set_apply, pure, EStateM.pure]
  refine ⟨rfl, ?_⟩
  intro y w hy
  by_cases hyx : y = x
  · subst hyx
    obtain rfl : v = w := by simpa using hy
    exact hx
  · exact hs.store y w (by rwa [Store.get?_set_of_ne _ _ hyx] at hy)

/-- **An instruction on a stack of the right types leaves one, or ends in one of
    the expected faults.** -/
theorem Takes.sound_execute [Writer W] (hΔ : Uniform Δ) {p : Linked} {τ' : List Tag}
    (h : i.Takes Δ τ τ') (hi : i.target? = none) (hs : s.Typed Δ τ) :
    i.Sound Δ τ' ((i.execute p).run s) := by
  cases h with
  | @push tag text =>
    refine sound_of_gives Exec.gives_constant hs.store ?_ ?_
    · intro σ hσ
      cases hv : Value.ofLiteral tag text with
      | error e => rw [hv] at hσ; cases hσ
      | ok v =>
        rw [hv] at hσ
        cases hσ
        rw [List.map_cons, hs.stack, Value.tag_of_ofLiteral hv]
    · intro f hf
      cases hv : Value.ofLiteral tag text with
      | error e => rw [hv] at hf; cases hf; exact .constant hv
      | ok v => rw [hv] at hf; cases hf
  | print => exact sound_print hs
  | plain hop => exact sound_plain hop hs
  | pop =>
    obtain ⟨v, σ, hσ, rfl, rfl⟩ := List.map_eq_cons_iff.1 hs.stack
    simp only [execute, Exec.plain, Exec.pop, EStateM.run, bind, EStateM.bind, get, getThe,
      MonadStateOf.get, get_apply, hσ, set, set_apply, pure, EStateM.pure]
    exact ⟨rfl, hs.store⟩
  | typed hop => exact sound_typed hop hs
  | @load x tag _ hx =>
    refine sound_of_gives (Exec.gives_load (p := p)) hs.store ?_ ?_
    · intro σ hσ
      cases hv : s.store.get? x with
      | none => rw [hv] at hσ; cases hσ
      | some v =>
        rw [hv] at hσ
        cases hσ
        rw [List.map_cons, hs.stack,
          Tag.ty_injective (hΔ.unique (hs.store x v hv) hx)]
    · intro f hf
      cases hv : s.store.get? x with
      | none => rw [hv] at hf; cases hf; exact .load
      | some v => rw [hv] at hf; cases hf
  | save hx => exact sound_save (p := p) hx hs
  | jmp | fjmp => cases hi
  | label => exact ⟨hs.stack, hs.store⟩

theorem Takes.fits {τ' : List Tag} (h : i.Takes Δ τ τ') : i.operands <+: τ := by
  cases h with
  | plain | typed => exact List.prefix_append _ _
  | fjmp => exact ⟨_, rfl⟩
  | push | print | pop | load | save | jmp | label => exact List.nil_prefix

end Instr

/-! ## Runs -/

namespace Linked

variable [Writer W] {p : Linked} {t : State W} {τ' : List Tag}

/-- A jump never fails, and keeps the types of the values below its operand. -/
theorem step_jump {l : String} {j : Nat} (hi : p.get? s.ip = some i) (hl : i.target? = some l)
    (hj : p.target? l = some j) (hs : s.Typed Δ τ) (hτ : i.Takes Δ τ τ') :
    ∃ t, p.step s = .next t ∧ ∀ {τ₁}, (tagEffects Δ).Goes i τ τ₁ → t.Typed Δ τ₁ := by
  cases hτ with
  | jmp =>
    cases hl
    refine ⟨_, step_jmp hi hj, ?_⟩
    rintro _ rfl
    exact ⟨hs.stack, hs.store⟩
  | fjmp =>
    cases hl
    obtain ⟨v, σ, hσ, hv, rfl⟩ := List.map_eq_cons_iff.1 hs.stack
    obtain ⟨b, hb⟩ := Value.toBool?_of_tag hv
    have hbool : v.asBool (.named .fjmp) = .ok b := by simp [Value.asBool, Value.operand, hb]
    have hstep := step_fjmp hi hj hσ
    rw [hbool] at hstep
    refine ⟨_, hstep, ?_⟩
    rintro _ ⟨⟩
    exact ⟨rfl, hs.store⟩
  | push | print | plain | pop | typed | load | save | label => cases hl

variable (hΔ : Uniform Δ) (hi : p.get? s.ip = some i) (hs : s.Typed Δ τ)
  (htargets : ∀ l, i.target? = some l → ∃ j, p.target? l = some j)

include hΔ hi hs htargets

theorem step_typed (hτ : (tagEffects Δ).Goes i τ τ') (h : p.step s = .next t) :
    t.Typed Δ τ' := by
  have htakes : i.Takes Δ τ τ' := Effects.takes_of_goes hτ
  cases hl : i.target? with
  | some l =>
    obtain ⟨j, hj⟩ := htargets l hl
    obtain ⟨t', ht', htyped⟩ := step_jump hi hl hj hs htakes
    obtain rfl : t' = t := by simpa [ht'] using h
    exact htyped hτ
  | none =>
    have hsound := htakes.sound_execute hΔ hl (p := p) (s := { s with ip := s.ip + 1 })
      ⟨hs.stack, hs.store⟩
    simp only [step, hi] at h
    cases hx : (i.execute p).run { s with ip := s.ip + 1 } with
    | ok u s' =>
      obtain rfl : s' = t := by simpa [hx] using h
      rwa [hx] at hsound
    | error f s' => simp [hx] at h

theorem step_failed (hτ : i.Takes Δ τ τ') {r : Report} (h : p.step s = .failed t r) :
    i.FailsWith r.fault ∧ t.store.Typed Δ := by
  cases hl : i.target? with
  | some l =>
    obtain ⟨j, hj⟩ := htargets l hl
    obtain ⟨t', ht', -⟩ := step_jump hi hl hj hs hτ
    rw [ht'] at h
    cases h
  | none =>
    have hsound := hτ.sound_execute hΔ hl (p := p) (s := { s with ip := s.ip + 1 })
      ⟨hs.stack, hs.store⟩
    simp only [step, hi] at h
    cases hx : (i.execute p).run { s with ip := s.ip + 1 } with
    | ok u s' => simp [hx] at h
    | error f s' =>
      rw [hx] at h hsound
      obtain ⟨rfl, rfl⟩ := Step.failed.inj h
      exact hsound

end Linked

/-- The faults that are excluded where the types are right: only constants may be
    malformed. -/
theorem Instr.FailsWith.fault {f : Fault} (h : i.FailsWith f) :
    (∀ op expected found, f ≠ .operandMismatch op expected found) ∧ f ≠ .stackUnderflow ∧
      (∀ l, f ≠ .unresolvedLabel l) ∧ ∀ c, f = .malformed c →
        ∃ tag text cause, i = .push tag text ∧ c = .badConstant tag text cause ∧
          Value.ofLiteral tag text = .error cause := by
  cases h with
  | @constant tag text cause hc =>
    refine ⟨by simp, by simp, by simp, ?_⟩
    rintro _ ⟨⟩
    exact ⟨tag, text, cause, rfl, rfl, hc⟩
  | load | input | badInput | div | mod | output => simp

/-- What is true throughout the run of a program whose variables have the types
    `Δ`. -/
structure Linked.WellTyped [Writer W] (m : Linked) (Δ : List (String × Ty))
    (inputs : List String) (k : W) : Prop where
  /-- Every variable in the store has a value of its declared type. -/
  store : ∀ fuel x v, (m.run fuel { input := .queue inputs, sink := k }).1.store.get? x = some v →
    (x, v.tag.ty) ∈ Δ
  /-- Every instruction that is executed finds operands of the types that it asks
      for. -/
  operands : ∀ fuel s i, m.run fuel { input := .queue inputs, sink := k } = (s, .unfinished) →
    m.get? s.ip = some i → i.operands <+: s.stack.map Value.tag
  /-- The run does not fail because of types, missing operands or missing labels,
      and of malformed instructions only because of a constant that does not
      parse. -/
  faults : ∀ fuel s r, m.run fuel { input := .queue inputs, sink := k } = (s, .failed r) →
    (∀ op expected found, r.fault ≠ .operandMismatch op expected found) ∧
    r.fault ≠ .stackUnderflow ∧ (∀ l, r.fault ≠ .unresolvedLabel l) ∧
    ∀ c, r.fault = .malformed c → ∃ n tag text cause, m.get? n = some (.push tag text) ∧
      c = .badConstant tag text cause ∧ Value.ofLiteral tag text = .error cause

/-- Code whose types fit together does not go wrong. -/
theorem Linked.wellTyped_of_flows [Writer W] (hΔ : Uniform Δ) {code : List Instr} {m : Linked}
    (hm : Code.link code = .ok m) (h : Flows (tagEffects Δ) [] code []) (inputs : List String)
    (k : W) : m.WellTyped Δ inputs k := by
  obtain ⟨c, hc, hflow, hclosed⟩ := h
  have hcode (n : Nat) : m.get? n = (c.map Prod.snd)[n]? := by rw [hc]; exact Code.get?_of_link hm n
  have hstart : State.Typed Δ [] { input := .queue inputs, sink := k } :=
    ⟨rfl, fun _ _ h => by cases h⟩
  have hreach {n : Nat} {s : State W} (hs : m.Steps n { input := .queue inputs, sink := k } s) :
      ∃ τ, ShapeAt c [] s.ip τ ∧ s.Typed Δ τ :=
    hflow.steps hclosed (Code.exact_of_link hm) hcode
      (fun hg hv hi h => Linked.step_typed hΔ hi hv (fun _ => Code.target?_of_link hm hi) hg h) hs
      hflow.shapeAt_zero hstart
  -- the instruction at the index of a state takes the types of its stack
  have htakes {s : State W} {τ : List Tag} {i : Instr} (hτ : ShapeAt c [] s.ip τ)
      (hi : m.get? s.ip = some i) : ∃ τ', i.Takes Δ τ τ' := by
    rw [hcode] at hi
    rcases hτ with ⟨j, hj⟩ | ⟨hend, -⟩
    · obtain rfl : j = i := by simpa [hj] using hi
      obtain ⟨τ', hτ', -⟩ := hflow.shapeAt_succ hj
      exact ⟨τ', hτ'⟩
    · simp [hend] at hi
  have hfailed {n : Nat} {s t : State W} {r : Report}
      (hs : m.Steps n { input := .queue inputs, sink := k } s) (h : m.step s = .failed t r) :
      (∃ i, m.get? s.ip = some i ∧ i.FailsWith r.fault) ∧ t.store.Typed Δ := by
    obtain ⟨τ, hτ, htyped⟩ := hreach hs
    cases hi : m.get? s.ip with
    | none => rw [Linked.step_eq_halted hi] at h; cases h
    | some i =>
      obtain ⟨τ', hτ'⟩ := htakes hτ hi
      obtain ⟨hf, ht⟩ := Linked.step_failed hΔ hi htyped (fun _ => Code.target?_of_link hm hi) hτ' h
      exact ⟨⟨i, rfl, hf⟩, ht⟩
  refine ⟨fun fuel => ?_, fun fuel s i hrun hi => ?_, fun fuel s r hrun => ?_⟩
  · obtain ⟨n, t, hn, hr | ⟨-, hr⟩ | ⟨u, r, hf, hr⟩⟩ :=
      m.run_cases fuel { input := .queue inputs, sink := k }
    · rw [hr]; exact (hreach hn).choose_spec.2.store
    · rw [hr]; exact (hreach hn).choose_spec.2.store
    · rw [hr]; exact (hfailed hn hf).2
  · obtain ⟨τ, hτ, htyped⟩ := hreach (Linked.run_unfinished hrun)
    obtain ⟨τ', hτ'⟩ := htakes hτ hi
    rw [htyped.stack]
    exact hτ'.fits
  · obtain ⟨n, t, hn, hr | ⟨-, hr⟩ | ⟨u, r', hf, hr⟩⟩ :=
      m.run_cases fuel { input := .queue inputs, sink := k }
    · rw [hr] at hrun; cases hrun
    · rw [hr] at hrun
      obtain ⟨cause, hcause⟩ := Linked.fault_of_finish (congrArg Prod.snd hrun)
      simp [hcause]
    · rw [hr] at hrun
      cases hrun
      obtain ⟨⟨i, hi, hfail⟩, -⟩ := hfailed hn hf
      obtain ⟨h₁, h₂, h₃, h₄⟩ := hfail.fault
      refine ⟨h₁, h₂, h₃, fun c hc => ?_⟩
      obtain ⟨tag, text, cause, rfl, hcause⟩ := h₄ c hc
      exact ⟨t.ip, tag, text, cause, hi, hcause⟩

/-- **Checked programs do not go wrong**, if all declarations of a name agree and
    the steps of `for` loops are assignments or expressions. -/
theorem Program.sound {p : Program} {code : List Instr} (h : p.compile = .ok code)
    (hΔ : Uniform (Stmt.declsAll p)) (hsteps : Stmt.plainStepsAll p = true) :
    ∃ m, Code.link code = .ok m ∧ ∀ {W : Type} [Writer W] (inputs : List String) (k : W),
      m.WellTyped (Stmt.declsAll p) inputs k := by
  obtain ⟨hcheck, hgen⟩ := Program.compile_eq_ok.1 h
  obtain ⟨m, hm⟩ := p.link_of_gen hgen
  obtain ⟨Γ, n, hp⟩ := p.emitsAll_of_gen hgen
  have hflows := hp.flows hΔ (fun _ _ h => by cases h) (List.Subset.refl _) hsteps hcheck
  exact ⟨m, hm, Linked.wellTyped_of_flows hΔ hm hflows⟩

/-- A program that stores an int in a float variable in each round of a loop. -/
theorem Program.sound_loop :
    ∃ code m, Program.compile [.decl .float ["x"],
        .forLoop (some (.decl .int "i" (.lit .int "0")))
          (some (.bin .less (.var "i") (.lit .float "2.5")))
          (some (.assign "i" (.bin .add (.var "i") (.lit .int "1")))) (.assign "x" (.var "i")),
        .write [.var "x"]] = .ok code ∧ Code.link code = .ok m ∧
      m.WellTyped [("x", .float), ("i", .int)] [] ({} : Sink) := by
  have hcompile : Program.compile [.decl .float ["x"],
      .forLoop (some (.decl .int "i" (.lit .int "0")))
        (some (.bin .less (.var "i") (.lit .float "2.5")))
        (some (.assign "i" (.bin .add (.var "i") (.lit .int "1")))) (.assign "x" (.var "i")),
      .write [.var "x"]] = .ok [.push .int "0", .named .save "i", .named .label "L0",
        .named .load "i", .plain .itof, .push .float "2.5", .typed .lt .float, .named .fjmp "L1",
        .named .load "i", .plain .itof, .named .save "x", .named .load "i", .push .int "1",
        .typed .add .int, .named .save "i", .named .jmp "L0", .named .label "L1",
        .named .load "x", .print 1] := rfl
  obtain ⟨m, hm, hsound⟩ := Program.sound hcompile (by decide) rfl
  exact ⟨_, m, hcompile, hm, hsound [] _⟩

end StackLang
