/-
  Shapes of the stack along code.

  A shape is what is known of a stack: the types of its values, or their number.
  `Effects` says how instructions change it.

  * `Flow E a c b`: the code `c`, in which every instruction stands with the shape
    in front of it, goes from `a` to `b`;
  * `Closed E c`: every jump finds its shape at its label;
  * `Flows E a c b`: code can be annotated in this way.  The code of a construct
    flows if its parts do (`Flows.append`, `Flows.branch`, `Flows.loop`);
  * `FlowsVia E M a c b`: the annotation also gives the parts `M` of the code their
    shapes;
  * `Flow.steps`: what an annotation says of the stack holds at every index that a
    run gets to.
-/
import StackLang.Proofs.Frame
import StackLang.Proofs.Link

namespace StackLang

/-- How instructions change the shape of the stack.  What stands behind a jump is
    reached from elsewhere. -/
structure Effects (α : Type) where
  Takes : Instr → α → α → Prop
  jmp : ∀ {l a b}, Takes (.named .jmp l) a b
  label : ∀ {l a b}, Takes (.named .label l) a b ↔ a = b
  /-- a test leaves one shape, whether it jumps or not -/
  fjmp : ∀ {l a b b'}, Takes (.named .fjmp l) a b → Takes (.named .fjmp l) a b' → b = b'

variable {α : Type}

/-- The shape at the place where an instruction goes on. -/
def Effects.Goes (E : Effects α) (i : Instr) (a b : α) : Prop :=
  match i with
  | .named .jmp _ => a = b
  | i => E.Takes i a b

/-- Code with the shapes in front of its instructions goes from one shape to
    another. -/
inductive Flow (E : Effects α) : α → List (α × Instr) → α → Prop
  | nil {a} : Flow E a [] a
  | cons {a b d i c} : E.Takes i a b → Flow E b c d → Flow E a ((a, i) :: c) d

/-- Every jump finds its shape at its label. -/
def Closed (E : Effects α) (c : List (α × Instr)) : Prop :=
  ∀ {a b i l}, (a, i) ∈ c → i.target? = some l → E.Goes i a b → (b, .named .label l) ∈ c

/-- Code goes from one shape to another. -/
def Flows (E : Effects α) (a : α) (c : List Instr) (b : α) : Prop :=
  ∃ ac, ac.map Prod.snd = c ∧ Flow E a ac b ∧ Closed E ac

/-- Inside code that goes from `a` to `b`, the part `c` at the index `i` goes from
    `x` to `y`. -/
def Flow.Part (E : Effects α) (a : α) (ac : List (α × Instr)) (b : α) (i : Nat) (c : List Instr)
    (x y : α) : Prop :=
  ∃ ac₁ ac' ac₂, ac = ac₁ ++ (ac' ++ ac₂) ∧ ac₁.length = i ∧ ac'.map Prod.snd = c ∧
    Flow E a ac₁ x ∧ Flow E x ac' y ∧ Flow E y ac₂ b

/-- Parts of code: their indices, their instructions and their shapes. -/
def Parts (α : Type) : Type := Nat → List Instr → α → α → Prop

namespace Parts

/-- No parts. -/
def none : Parts α := fun _ _ _ _ => False

/-- The parts of code that stands behind `n` instructions. -/
def shift (n : Nat) (M : Parts α) : Parts α := fun i c x y => ∃ j, i = n + j ∧ M j c x y

/-- The parts of two codes. -/
def union (M₁ M₂ : Parts α) : Parts α := fun i c x y => M₁ i c x y ∨ M₂ i c x y

end Parts

/-- Code goes from one shape to another, and so do its parts `M`. -/
def FlowsVia (E : Effects α) (M : Parts α) (a : α) (c : List Instr) (b : α) : Prop :=
  ∃ ac, ac.map Prod.snd = c ∧ Flow E a ac b ∧ Closed E ac ∧
    ∀ {i c' x y}, M i c' x y → Flow.Part E a ac b i c' x y

variable {E : Effects α} {a b d : α} {M M₁ M₂ : Parts α}

theorem Effects.takes_of_goes {i : Instr} (h : E.Goes i a b) : E.Takes i a b := by
  unfold Goes at h
  split at h
  · exact E.jmp
  · exact h

/-! ## Composition -/

theorem Flow.append {c₁ c₂ : List (α × Instr)} (h₁ : Flow E a c₁ b) (h₂ : Flow E b c₂ d) :
    Flow E a (c₁ ++ c₂) d := by
  induction h₁ with
  | nil => exact h₂
  | cons hi _ ih => exact .cons hi (ih h₂)

theorem Closed.append {c₁ c₂ : List (α × Instr)} (h₁ : Closed E c₁) (h₂ : Closed E c₂) :
    Closed E (c₁ ++ c₂) := by
  intro a b i l hi hl hg
  rw [List.mem_append] at hi ⊢
  exact hi.imp (fun hi => h₁ hi hl hg) fun hi => h₂ hi hl hg

namespace Flow.Part

variable {ac ac₁ ac₂ : List (α × Instr)} {i : Nat} {c : List Instr} {x y : α}

theorem whole (h : Flow E a ac b) : Part E a ac b 0 (ac.map Prod.snd) a b :=
  ⟨[], ac, [], by simp, rfl, rfl, .nil, h, .nil⟩

theorem append_left (h : Part E a ac₁ b i c x y) (h₂ : Flow E b ac₂ d) :
    Part E a (ac₁ ++ ac₂) d i c x y := by
  obtain ⟨l, m, r, rfl, hi, hm, hl, hf, hr⟩ := h
  exact ⟨l, m, r ++ ac₂, by simp, hi, hm, hl, hf, hr.append h₂⟩

theorem append_right (h₁ : Flow E a ac₁ b) (h : Part E b ac₂ d i c x y) :
    Part E a (ac₁ ++ ac₂) d (ac₁.length + i) c x y := by
  obtain ⟨l, m, r, rfl, rfl, hm, hl, hf, hr⟩ := h
  exact ⟨ac₁ ++ l, m, r, by simp, by simp, hm, h₁.append hl, hf, hr⟩

end Flow.Part

namespace FlowsVia

variable {c c₁ c₂ : List Instr}

theorem flows (h : FlowsVia E M a c b) : Flows E a c b := by
  obtain ⟨ac, hm, hf, hc, -⟩ := h
  exact ⟨ac, hm, hf, hc⟩

/-- The whole code is also one of its parts. -/
theorem whole (h : FlowsVia E M₁ a c b)
    (hM : ∀ {i c' x y}, M i c' x y → M₁ i c' x y ∨ i = 0 ∧ c' = c ∧ x = a ∧ y = b) :
    FlowsVia E M a c b := by
  obtain ⟨ac, rfl, hf, hc, hs⟩ := h
  refine ⟨ac, rfl, hf, hc, fun hi => ?_⟩
  rcases hM hi with hi | ⟨rfl, rfl, rfl, rfl⟩
  · exact hs hi
  · exact .whole hf

theorem append (h₁ : FlowsVia E M₁ a c₁ b) (h₂ : FlowsVia E M₂ b c₂ d) :
    FlowsVia E (M₁.union (M₂.shift c₁.length)) a (c₁ ++ c₂) d := by
  obtain ⟨ac₁, rfl, hf₁, hc₁, hs₁⟩ := h₁
  obtain ⟨ac₂, rfl, hf₂, hc₂, hs₂⟩ := h₂
  refine ⟨ac₁ ++ ac₂, List.map_append, hf₁.append hf₂, hc₁.append hc₂, ?_⟩
  rintro i c' x y (hi | ⟨j, rfl, hj⟩)
  · exact (hs₁ hi).append_left hf₂
  · rw [List.length_map]
    exact (hs₂ hj).append_right hf₁

/-- Two branches behind a test.  Both go from the shape behind the test to the
    same one. -/
theorem branch {l l' : String} {x : α} {cc ct ce : List Instr} (hc : Flows E a cc x)
    (hx : E.Takes (.named .fjmp l) x b) (ht : FlowsVia E M₁ b ct d)
    (he : FlowsVia E M₂ b ce d) :
    FlowsVia E ((M₁.shift (cc.length + 1)).union (M₂.shift (cc.length + 1 + ct.length + 2))) a
      (cc ++ .named .fjmp l :: (ct ++ .named .jmp l' :: .named .label l ::
        (ce ++ [.named .label l']))) d := by
  obtain ⟨acc, rfl, hfc, hcc⟩ := hc
  obtain ⟨act, rfl, hft, hct, hst⟩ := ht
  obtain ⟨ace, rfl, hfe, hce, hse⟩ := he
  -- the parts in front of and behind the branches
  have htest : Flow E a (acc ++ [(x, .named .fjmp l)]) b := hfc.append (.cons hx .nil)
  have hend : Flow E d [(d, .named .label l')] d := .cons (E.label.2 rfl) .nil
  have hskip : Flow E d [(d, .named .jmp l'), (b, .named .label l)] b :=
    .cons E.jmp (.cons (E.label.2 rfl) .nil)
  refine ⟨acc ++ [(x, .named .fjmp l)] ++ act ++ [(d, .named .jmp l'), (b, .named .label l)] ++ ace ++
    [(d, .named .label l')], by simp, ?_, ?_, ?_⟩
  · exact (((htest.append hft).append hskip).append hfe).append hend
  · intro y z i m hi hm hg
    simp only [List.append_assoc, List.cons_append, List.nil_append, List.mem_append, List.mem_cons,
      List.not_mem_nil, or_false, Prod.mk.injEq] at hi ⊢
    rcases hi with hi | ⟨rfl, rfl⟩ | hi | ⟨rfl, rfl⟩ | ⟨-, rfl⟩ | hi | ⟨-, rfl⟩
    · exact .inl (hcc hi hm hg)
    · obtain rfl : l = m := Option.some.inj hm
      exact .inr (.inr (.inr (.inr (.inl ⟨E.fjmp hg hx, rfl⟩))))
    · exact .inr (.inr (.inl (hct hi hm hg)))
    · obtain rfl : l' = m := Option.some.inj hm
      exact .inr (.inr (.inr (.inr (.inr (.inr ⟨hg.symm, rfl⟩)))))
    · cases hm
    · exact .inr (.inr (.inr (.inr (.inr (.inl (hce hi hm hg))))))
    · cases hm
  · rintro i c' y z (⟨j, rfl, hj⟩ | ⟨j, rfl, hj⟩)
    · have hthen := (((hst hj).append_right htest).append_left hskip).append_left hfe
      simpa using hthen.append_left hend
    · have helse := ((hse hj).append_right ((htest.append hft).append hskip)).append_left hend
      simp only [List.length_append, List.length_cons, List.length_nil, Nat.zero_add,
        Nat.reduceAdd] at helse
      rwa [List.length_map, List.length_map]

end FlowsVia

namespace Flows

theorem via {c : List Instr} (h : Flows E a c b) : FlowsVia E .none a c b := by
  obtain ⟨ac, hm, hf, hc⟩ := h
  exact ⟨ac, hm, hf, hc, False.elim⟩

theorem nil : Flows E a [] a := ⟨[], rfl, .nil, by intro _ _ _ _ h; cases h⟩

/-- An instruction that does not jump. -/
theorem instr {i : Instr} (h : E.Takes i a b) (hi : i.target? = none) : Flows E a [i] b := by
  refine ⟨[(a, i)], rfl, .cons h .nil, ?_⟩
  intro x y j l hj hl _
  obtain ⟨rfl, rfl⟩ : x = a ∧ j = i := by simpa using hj
  simp [hi] at hl

theorem append {c₁ c₂ : List Instr} (h₁ : Flows E a c₁ b) (h₂ : Flows E b c₂ d) :
    Flows E a (c₁ ++ c₂) d := (h₁.via.append h₂.via).flows

theorem branch {l l' : String} {x : α} {cc ct ce : List Instr} (hc : Flows E a cc x)
    (hx : E.Takes (.named .fjmp l) x b) (ht : Flows E b ct d) (he : Flows E b ce d) :
    Flows E a (cc ++ .named .fjmp l :: (ct ++ .named .jmp l' :: .named .label l ::
      (ce ++ [.named .label l']))) d :=
  (FlowsVia.branch hc hx ht.via he.via).flows

end Flows

/-- Code that keeps the shape, and may leave for the label `l` with it. -/
def Tests (E : Effects α) (a : α) (c : List Instr) (l : String) : Prop :=
  ∃ ac, ac.map Prod.snd = c ∧ Flow E a ac a ∧ ∀ {x y i m}, (x, i) ∈ ac → i.target? = some m →
    E.Goes i x y → (y, .named .label m) ∈ ac ∨ y = a ∧ m = l

theorem Tests.nil {l : String} : Tests E a [] l := by
  obtain ⟨ac, hm, hf, hc⟩ := Flows.nil (E := E) (a := a)
  exact ⟨ac, hm, hf, fun hi hm hg => .inl (hc hi hm hg)⟩

theorem Tests.fjmp {l : String} {c : List Instr} (hc : Flows E a c b)
    (hb : E.Takes (.named .fjmp l) b a) : Tests E a (c ++ [.named .fjmp l]) l := by
  obtain ⟨ac, rfl, hf, hc⟩ := hc
  refine ⟨ac ++ [(b, .named .fjmp l)], by simp, hf.append (.cons hb .nil), ?_⟩
  intro x y i m hi hm hg
  rcases List.mem_append.1 hi with hi | hi
  · exact .inl (List.mem_append_left _ (hc hi hm hg))
  · obtain ⟨rfl, rfl⟩ : x = b ∧ i = .named .fjmp l := by simpa using hi
    exact .inr ⟨E.fjmp hg hb, (Option.some.inj hm).symm⟩

/-- A loop: the body goes back to the shape in front of the test. -/
theorem FlowsVia.loop {l l' : String} {cc cb : List Instr} (hc : Tests E a cc l')
    (hb : FlowsVia E M a cb a) : FlowsVia E (M.shift (cc.length + 1)) a
      (.named .label l :: (cc ++ (cb ++ [.named .jmp l, .named .label l']))) a := by
  obtain ⟨acc, rfl, hfc, hcc⟩ := hc
  obtain ⟨acb, rfl, hfb, hcb, hsb⟩ := hb
  have hhead : Flow E a ([(a, .named .label l)] ++ acc) a := .cons (E.label.2 rfl) hfc
  have hend : Flow E a [(a, .named .jmp l), (a, .named .label l')] a :=
    .cons E.jmp (.cons (E.label.2 rfl) .nil)
  refine ⟨[(a, .named .label l)] ++ acc ++ acb ++ [(a, .named .jmp l), (a, .named .label l')],
    by simp, (hhead.append hfb).append hend, ?_, ?_⟩
  · intro x y i m hi hm hg
    simp only [List.append_assoc, List.cons_append, List.nil_append, List.mem_append, List.mem_cons,
      List.not_mem_nil, or_false, Prod.mk.injEq] at hi ⊢
    rcases hi with ⟨-, rfl⟩ | hi | hi | ⟨rfl, rfl⟩ | ⟨-, rfl⟩
    · cases hm
    · rcases hcc hi hm hg with hl | ⟨rfl, rfl⟩
      · exact .inr (.inl hl)
      · exact .inr (.inr (.inr (.inr ⟨rfl, rfl⟩)))
    · exact .inr (.inr (.inl (hcb hi hm hg)))
    · obtain rfl : l = m := Option.some.inj hm
      exact .inl ⟨hg.symm, rfl⟩
    · cases hm
  · rintro i c' x y ⟨j, rfl, hj⟩
    have hbody := ((hsb hj).append_right hhead).append_left hend
    rwa [List.length_map]

theorem Flows.loop {l l' : String} {cc cb : List Instr} (hc : Tests E a cc l')
    (hb : Flows E a cb a) :
    Flows E a (.named .label l :: (cc ++ (cb ++ [.named .jmp l, .named .label l']))) a :=
  (FlowsVia.loop hc hb.via).flows

/-! ## Runs -/

/-- The shape in front of an index, in code that goes to the shape `b`. -/
def ShapeAt (code : List (α × Instr)) (b : α) (i : Nat) (x : α) : Prop :=
  (∃ j, code[i]? = some (x, j)) ∨ i = code.length ∧ x = b

namespace Flow

variable {code : List (α × Instr)}

theorem shapeAt_zero (h : Flow E a code b) : ShapeAt code b 0 a := by
  cases h with
  | nil => exact .inr ⟨rfl, rfl⟩
  | cons hi _ => exact .inl ⟨_, rfl⟩

/-- The shape between two parts of code. -/
theorem shapeAt_length {c₁ c₂ : List (α × Instr)} (h : Flow E a c₂ b) :
    ShapeAt (c₁ ++ c₂) b c₁.length a := by
  rcases h.shapeAt_zero with ⟨j, hj⟩ | ⟨hlen, rfl⟩
  · exact .inl ⟨j, by rw [List.getElem?_append_right (Nat.le_refl _), Nat.sub_self, hj]⟩
  · exact .inr ⟨by simp [← hlen], rfl⟩

theorem Part.shapeAt {i : Nat} {c : List Instr} {x y : α} (h : Part E a code b i c x y) :
    ShapeAt code b i x ∧ ShapeAt code b (i + c.length) y := by
  obtain ⟨l, m, r, rfl, rfl, rfl, -, hm, hr⟩ := h
  refine ⟨(hm.append hr).shapeAt_length, ?_⟩
  rw [← List.append_assoc, List.length_map, ← List.length_append]
  exact hr.shapeAt_length

/-- Behind an instruction that does not jump stands the shape that it leaves. -/
theorem shapeAt_succ (h : Flow E a code b) {n : Nat} {x : α} {i : Instr}
    (hi : code[n]? = some (x, i)) : ∃ y, E.Takes i x y ∧ ShapeAt code b (n + 1) y := by
  induction h generalizing n with
  | nil => simp at hi
  | @cons a b' d j c hj hc ih =>
    cases n with
    | zero =>
      obtain ⟨rfl, rfl⟩ : a = x ∧ j = i := by simpa using hi
      refine ⟨b', hj, ?_⟩
      rcases hc.shapeAt_zero with ⟨k, hk⟩ | ⟨h0, rfl⟩
      · exact .inl ⟨k, by simpa using hk⟩
      · exact .inr ⟨by simp [← h0], rfl⟩
    | succ n =>
      obtain ⟨y, hy, hs⟩ := ih (by simpa using hi)
      refine ⟨y, hy, ?_⟩
      rcases hs with ⟨k, hk⟩ | ⟨h0, rfl⟩
      · exact .inl ⟨k, by simpa using hk⟩
      · exact .inr ⟨by simp [← h0], rfl⟩

variable {W : Type} [Writer W] {p : Linked} {V : α → State W → Prop} (hf : Flow E a code b)
  (hc : Closed E code)
  (hp : p.Exact) (hcode : ∀ i, p.get? i = (code.map Prod.snd)[i]?)
  (hV : ∀ {i x y s t}, E.Goes i x y → V x s → p.get? s.ip = some i → p.step s = .next t → V y t)

include hf hc hp hcode hV

/-- A step leads from a state with the shape of its index to another one. -/
theorem step {s t : State W} {x : α} (hx : ShapeAt code b s.ip x) (hs : V x s)
    (h : p.step s = .next t) : ∃ y, ShapeAt code b t.ip y ∧ V y t := by
  rcases hx with ⟨i, hi⟩ | ⟨hend, -⟩
  · have hget : p.get? s.ip = some i := by simp [hcode, hi]
    obtain ⟨y, hy, hnext⟩ := hf.shapeAt_succ hi
    -- a jump finds its shape at its label, which is the only one of its name
    have hjump {l : String} {z : α} (hl : i.target? = some l) (ht : p.target? l = some t.ip)
        (hz : E.Goes i x z) : ∃ y, ShapeAt code b t.ip y ∧ V y t := by
      obtain ⟨j, hj⟩ := List.getElem?_of_mem (hc (List.mem_of_getElem? hi) hl hz)
      have hlabel : p.get? j = some (.named .label l) := by simp [hcode, hj]
      obtain rfl : j = t.ip := Option.some.inj ((hp hlabel).symm.trans ht)
      exact ⟨z, .inl ⟨_, hj⟩, hV hz hs hget h⟩
    by_cases hjmp : ∃ l, i = .named .jmp l
    · obtain ⟨l, rfl⟩ := hjmp
      exact hjump rfl (Linked.step_ip_jmp hget h) rfl
    · have hgoes : E.Goes i x y := by
        unfold Effects.Goes
        split
        · exact absurd ⟨_, rfl⟩ hjmp
        · exact hy
      rcases Linked.step_ip hget h with hip | ⟨l, hl, ht⟩
      · exact ⟨y, hip ▸ hnext, hV hgoes hs hget h⟩
      · exact hjump hl ht hgoes
  · have hget : p.get? s.ip = none := by simp [hcode, hend]
    rw [Linked.step_eq_halted hget] at h
    cases h

/-- The shapes of an annotation hold along every run. -/
theorem steps {k : Nat} {s t : State W} (h : p.Steps k s t) {x : α} (hx : ShapeAt code b s.ip x)
    (hs : V x s) : ∃ y, ShapeAt code b t.ip y ∧ V y t := by
  induction h generalizing x with
  | refl => exact ⟨x, hx, hs⟩
  | step h _ ih =>
    obtain ⟨y, hy, ht⟩ := hf.step hc hp hcode hV hx hs h
    exact ih hy ht

end Flow

end StackLang
