/-
  Machines that differ in their inputs only.

  * `Input.Agree R F`: inputs that are related by `R` give the same value and stay
    related, unless the first one has nothing to give and `F` excuses that;
  * then the two machines go in lockstep, up to a fault that is excused:
    `Linked.step_matched` for one step and `Linked.run_matched` for a run;
  * `Linked.run_more_input`: inputs behind those that a run takes do not change it;
  * `Linked.runs p ns s`: runs one after another, also behind failures.  It makes no
    difference to them whether the inputs are a queue or the lines of a reader
    (`encodeLines`), whichever line ends it has: `Linked.runs_reader`.
-/
import Mathlib.Data.List.Forall2
import StackLang.Proofs.Resolve

namespace StackLang

/-! ## Lockstep -/

/-- Inputs that are related give the same value, and what is left of them is related.
    They may part where the first one has nothing to give, if that fault is excused. -/
def Input.Agree (R : Input → Input → Prop) (F : Fault → Prop) : Prop :=
  ∀ i j, R i j → j.next.1 = i.next.1 ∧ R i.next.2 j.next.2 ∨ i.next.1 = none ∧ F .inputExhausted

namespace Exec

variable {W : Type} {R : Input → Input → Prop} {F : Fault → Prop} {α β : Type}

/-- The second result is the first one with related inputs, or the first one is a fault
    that is excused. -/
def MatchedResult (R : Input → Input → Prop) (F : Fault → Prop)
    (r r' : EStateM.Result Fault (State W) α) : Prop :=
  match r with
  | .ok a s => ∃ j, R s.input j ∧ r' = .ok a { s with input := j }
  | .error f s => F f ∨ ∃ j, R s.input j ∧ r' = .error f { s with input := j }

/-- The action does the same with related inputs. -/
def Matched (R : Input → Input → Prop) (F : Fault → Prop) (x : Exec W α) : Prop :=
  ∀ s j, R s.input j → MatchedResult R F (x s) (x { s with input := j })

namespace Matched

theorem bind {x : Exec W α} {f : α → Exec W β} (hx : Matched R F x) (hf : ∀ a, Matched R F (f a)) :
    Matched R F (x >>= f) := by
  intro s j hj
  have hs := hx s j hj
  simp only [Bind.bind, EStateM.bind]
  cases hr : x s with
  | ok a t =>
    rw [hr] at hs
    obtain ⟨j', hj', hs⟩ := hs
    rw [hs]
    exact hf a t j' hj'
  | error e t =>
    rw [hr] at hs
    rcases hs with he | ⟨j', hj', hs⟩
    · exact .inl he
    · exact .inr ⟨j', hj', by rw [hs]⟩

theorem pop : Matched (W := W) R F pop := by
  rintro ⟨ip, _ | ⟨v, σ⟩, m, i, k⟩ j hj
  · exact .inr ⟨j, hj, rfl⟩
  · exact ⟨j, hj, rfl⟩

theorem dup : Matched (W := W) R F (plain .dup) := by
  rintro ⟨ip, _ | ⟨v, σ⟩, m, i, k⟩ j hj
  · exact .inr ⟨j, hj, rfl⟩
  · exact ⟨j, hj, rfl⟩

theorem admits : Admits fun _ x => Matched (W := W) R F x where
  pure := fun _ j hj => ⟨j, hj, rfl⟩
  throw := fun _ j hj => .inr ⟨j, hj, rfl⟩
  bind := bind
  push := fun _ j hj => ⟨j, hj, rfl⟩
  pop := pop
  dup := dup

theorem read (hR : Input.Agree R F) {tag : Tag} : Matched (W := W) R F (read tag) := by
  intro s j hj
  simp only [read_eq]
  rcases hR s.input j hj with ⟨hnext, hrest⟩ | ⟨hnone, hF⟩
  · rw [hnext]
    cases s.input.next.1 with
    | none => exact .inr ⟨_, hrest, rfl⟩
    | some text =>
      dsimp only
      cases Value.read tag text with
      | error e => exact .inr ⟨_, hrest, rfl⟩
      | ok v => exact ⟨_, hrest, rfl⟩
  · rw [hnone]
    exact .inl hF

theorem print [Writer W] {n : Nat} : Matched (W := W) R F (print n) := by
  intro s j hj
  by_cases hn : s.stack.length < n
  · simp only [print_of_lt hn, print_of_lt (s := { s with input := j }) hn]
    exact .inr ⟨j, hj, rfl⟩
  · have hle := Nat.le_of_not_lt hn
    simp only [print_of_le hle, print_of_le (s := { s with input := j }) hle]
    generalize Writer.write s.sink (lineOf n s.stack ++ "\n") = w
    rcases w with ⟨_ | _, k⟩
    · exact .inr ⟨j, hj, rfl⟩
    · exact ⟨j, hj, rfl⟩

theorem jump {p : Linked} {l : String} : Matched (W := W) R F (jump p l) := by
  unfold Exec.jump
  cases p.target? l with
  | none => exact admits.throw
  | some k => exact fun _ j hj => ⟨j, hj, rfl⟩

theorem named {p : Linked} {op : Named} {x : String} : Matched (W := W) R F (named p op x) := by
  cases op with
  | load =>
    intro s j hj
    simp only [Exec.named, Bind.bind, EStateM.bind, get, getThe, MonadStateOf.get, get_apply]
    cases s.store.get? x with
    | none => exact .inr ⟨j, hj, rfl⟩
    | some v => exact ⟨j, hj, rfl⟩
  | save => exact pop.bind fun _ _ j hj => ⟨j, hj, rfl⟩
  | jmp => exact jump
  | fjmp => exact admits.fjmp jump
  | label => exact admits.pure

end Matched

end Exec

open Exec in
theorem Instr.matched_execute {W : Type} [Writer W] {R : Input → Input → Prop}
    {F : Fault → Prop} (hR : Input.Agree R F) {p : Linked} {i : Instr} :
    Matched (W := W) R F (i.execute p) := by
  cases i with
  | push tag text => exact Matched.admits.constant
  | print n => exact .print
  | plain op => exact Matched.admits.plain
  | typed op tag => exact Matched.admits.typed fun _ => .read hR
  | named op x => exact .named

/-- What two machines with related inputs come to by one step. -/
inductive Step.Matched {W : Type} (R : Input → Input → Prop) (F : Fault → Prop) :
    Step W → Step W → Prop
  | halted : Matched R F .halted .halted
  | next {t j} : R t.input j → Matched R F (.next t) (.next { t with input := j })
  | failed {t j r} : R t.input j → Matched R F (.failed t r) (.failed { t with input := j } r)
  | excused {t r st} : F r.fault → Matched R F (.failed t r) st

/-- The second end of a run is the first one with related inputs. -/
def Linked.SameEnd {W : Type} (R : Input → Input → Prop) (e e' : State W × Outcome) : Prop :=
  ∃ j, R e.1.input j ∧ e' = ({ e.1 with input := j }, e.2)

namespace Linked

variable {W : Type} [Writer W] {p : Linked} {R : Input → Input → Prop} {F : Fault → Prop}
  {s t : State W} {j : Input}

/-- **One step keeps the machines in lockstep.** -/
theorem step_matched (hR : Input.Agree R F) (hj : R s.input j) :
    Step.Matched R F (p.step s) (p.step { s with input := j }) := by
  cases hi : p.get? s.ip with
  | none =>
    rw [step_eq_halted hi, step_eq_halted (s := { s with input := j }) hi]
    exact .halted
  | some i =>
    have hx := i.matched_execute hR (p := p) { s with ip := s.ip + 1 } j hj
    simp only [step, hi, EStateM.run]
    cases hr : i.execute p { s with ip := s.ip + 1 } with
    | ok u t =>
      rw [hr] at hx
      obtain ⟨j', hj', hx⟩ := hx
      rw [hx]
      exact .next hj'
    | error f t =>
      rw [hr] at hx
      rcases hx with hf | ⟨j', hj', hx⟩
      · exact .excused hf
      · rw [hx]
        exact .failed hj'

theorem Steps.matched (hR : Input.Agree R F) {k : Nat} (h : p.Steps k s t) (hj : R s.input j) :
    ∃ j', R t.input j' ∧ p.Steps k { s with input := j } { t with input := j' } := by
  induction h generalizing j with
  | refl => exact ⟨j, hj, .refl⟩
  | @step k s u t hs _ ih =>
    have hstep := step_matched hR hj (p := p)
    rw [hs] at hstep
    generalize hs' : p.step { s with input := j } = st at hstep
    cases hstep with
    | next hj₁ =>
      obtain ⟨j', hj', hrest⟩ := ih hj₁
      exact ⟨j', hj', .step hs' hrest⟩

/-- **The machines have the same runs**, up to a fault that is excused. -/
theorem run_matched (hR : Input.Agree R F) (hj : R s.input j) (n : Nat) :
    SameEnd R (p.run n s) (p.run n { s with input := j }) ∨
      ∃ r, (p.run n s).2 = .failed r ∧ F r.fault := by
  induction n generalizing s j with
  | zero => exact .inl ⟨j, hj, rfl⟩
  | succ n ih =>
    have hstep := step_matched hR hj (p := p)
    simp only [run]
    generalize p.step s = st at hstep
    generalize p.step { s with input := j } = st' at hstep
    cases hstep with
    | halted => exact .inl ⟨j, hj, rfl⟩
    | next hj' => exact ih hj'
    | failed hj' => exact .inl ⟨_, hj', rfl⟩
    | excused hF => exact .inr ⟨_, rfl, hF⟩

end Linked

/-! ## More inputs -/

/-- The second queue has the values `ys` behind those of the first one. -/
def Input.Longer (ys : List String) (i j : Input) : Prop :=
  ∃ xs, i = .queue xs ∧ j = .queue (xs ++ ys)

theorem Input.agree_longer (ys : List String) : Agree (Longer ys) (· = .inputExhausted) := by
  rintro _ _ ⟨xs, rfl, rfl⟩
  cases xs with
  | nil => exact .inr ⟨rfl, rfl⟩
  | cons x xs => exact .inl ⟨rfl, xs, rfl, rfl⟩

/-- The run ended for want of an input. -/
def Outcome.Dry (o : Outcome) : Prop := ∃ r, o = .failed r ∧ r.fault = .inputExhausted

namespace Linked

variable {W : Type} [Writer W] {p : Linked} {s t : State W}

theorem sink_of_exhausted {r : Report} (h : p.step s = .failed t r)
    (hr : r.fault = .inputExhausted) : t.sink = s.sink := by
  cases hi : p.get? s.ip with
  | none => simp [step_eq_halted hi] at h
  | some i =>
    have hrisk := risks_of_step hi h
    rw [hr] at hrisk
    rcases hrisk with ⟨hunderflow, -⟩ | hrisk
    · cases hunderflow
    · cases hrisk with
      | inputExhausted =>
        have hframe : Exec.Frame fun s t : State W => t.sink = s.sink :=
          .of_field (·.sink) fun _ _ => rfl
        exact step_within hi (Instr.within_execute hframe (fun _ _ _ => rfl) nofun nofun nofun)
          (.inr ⟨r, h⟩)

theorem run_written_of_dry {R : Input → Input → Prop} {F : Fault → Prop} (hR : Input.Agree R F)
    {j : Input} (hj : R s.input j) {n m : Nat} (hdry : (p.run n s).2.Dry) (hm : n ≤ m) :
    ∃ ts, Writer.Written (p.run n s).1.sink ts (p.run m { s with input := j }).1.sink := by
  obtain ⟨r, hend, hr⟩ := hdry
  obtain ⟨k, t, hk, hrun | ⟨-, hrun⟩ | ⟨v, r', hfail, hrun⟩⟩ := p.run_cases n s
  · rw [hrun] at hend
    cases hend
  · rw [hrun] at hend
    obtain ⟨cause, hcause⟩ := fault_of_finish hend
    rw [hr] at hcause
    cases hcause
  · have hlt : k < n := hk.lt_of_ended (by rw [hend]; simp)
    rw [hrun] at hend ⊢
    obtain rfl : r' = r := Outcome.failed.inj hend
    -- the second machine passes through the state in which the first one asks in vain
    obtain ⟨j', -, hk'⟩ := hk.matched hR hj
    obtain ⟨d, rfl⟩ := Nat.exists_eq_add_of_le (Nat.le_trans (Nat.le_of_lt hlt) hm)
    rw [hk'.run_add, sink_of_exhausted hfail hr]
    exact run_written d { t with input := j' }

/-- **More inputs do not change the past.**  Let a machine run with the inputs `xs`, and
    also with `ys` behind them.  As long as the first run does not end for want of an
    input, the second one comes to the same state and the same end, with `ys` behind the
    inputs that are left.  If it does, the second one writes what the first one wrote,
    and goes on from there.  If it does not end at all, nor does the second one. -/
theorem run_more_input (p : Linked) (s : State W) (xs ys : List String) :
    let start (inputs : List String) : State W := { s with input := .queue inputs }
    (∀ n t o, p.run n (start xs) = (t, o) → ¬ o.Dry → ∃ zs, t.input = .queue zs ∧
      p.run n (start (xs ++ ys)) = ({ t with input := .queue (zs ++ ys) }, o)) ∧
    (∀ n t o, p.run n (start xs) = (t, o) → o.Dry →
      ∀ m, n ≤ m → ∃ ts, Writer.Written t.sink ts (p.run m (start (xs ++ ys))).1.sink) ∧
    ((∀ n, (p.run n (start xs)).2 = .unfinished) →
      ∀ n, (p.run n (start (xs ++ ys))).2 = .unfinished) := by
  intro start
  have hagree := Input.agree_longer ys
  have hstart : Input.Longer ys (start xs).input (.queue (xs ++ ys)) := ⟨xs, rfl, rfl⟩
  refine ⟨fun n t o hrun hdry => ?_, fun n t o hrun hdry m hm => ?_, fun hall n => ?_⟩
  · rcases run_matched hagree hstart n (p := p) with ⟨_, ⟨zs, hzs, rfl⟩, hsame⟩ | hend
    · rw [hrun] at hzs hsame
      exact ⟨zs, hzs, hsame⟩
    · rw [hrun] at hend
      exact absurd hend hdry
  · have hwritten := run_written_of_dry hagree hstart (p := p) (n := n) (by rwa [hrun]) hm
    rwa [hrun] at hwritten
  · rcases run_matched hagree hstart n (p := p) with ⟨_, -, hsame⟩ | ⟨r, hend, -⟩
    · rw [show p.run n (start (xs ++ ys)) = _ from hsame]
      exact hall n
    · rw [hall n] at hend
      cases hend

/-- A machine that prints two inputs: with one it stops behind the first line, and a third
    one is left over. -/
theorem run_more_input_two_lines :
    let p : Linked := ⟨#[.typed .read .string, .print 1, .typed .read .string, .print 1], []⟩
    let start (inputs : List String) : State := { input := .queue inputs, sink := {} }
    let stop (inputs : List String) : State :=
      { ip := 4, input := .queue inputs, sink := { text := "a\nb\n" } }
    (p.run 9 (start ["a"])).2.Dry ∧
      (∀ m, 9 ≤ m → ∃ u, (p.run m (start ["a", "b", "c"])).1.sink.text = "a\n" ++ u) ∧
      p.run 9 (start ["a", "b"]) = (stop [], .done) ∧
      p.run 9 (start ["a", "b", "c"]) = (stop ["c"], .done) := by
  intro p start stop
  have hone : p.run 9 (start ["a"]) = ({ ip := 3, input := .queue [], sink := { text := "a\n" } },
      .failed (.located 2 "read S" .inputExhausted)) := by decide +kernel
  have htwo : p.run 9 (start ["a", "b"]) = (stop [], .done) := by decide +kernel
  have hdry : (p.run 9 (start ["a"])).2.Dry := ⟨_, by rw [hone], rfl⟩
  obtain ⟨-, hwrites, -⟩ := run_more_input p (start []) ["a"] ["b", "c"]
  obtain ⟨hsame, -, -⟩ := run_more_input p (start []) ["a", "b"] ["c"]
  obtain ⟨zs, hzs, hthree⟩ := hsame 9 _ _ htwo (by rintro ⟨r, hr, -⟩; cases hr)
  obtain rfl : zs = [] := (Input.queue.inj hzs).symm
  refine ⟨hdry, fun m hm => ?_, htwo, hthree⟩
  obtain ⟨ts, hts⟩ := hwrites 9 _ _ hone (by rwa [hone] at hdry) m hm
  exact Sink.text_of_written hts

end Linked

/-! ## Lines of a reader -/

/-- The UTF-8 bytes of a text. -/
def encodeText (s : String) : List UInt8 := s.toUTF8.data.toList

theorem decodeText?_encodeText (s : String) : decodeText? (encodeText s) = some s := by
  have hbytes : (⟨(encodeText s).toArray⟩ : ByteArray) = s.toUTF8 := rfl
  rw [decodeText?, hbytes, String.fromUTF8?]
  exact dif_pos s.isValidUTF8

theorem encodeText_append (s t : String) : encodeText (s ++ t) = encodeText s ++ encodeText t := by
  simp [encodeText]

theorem encodeText_eq_flatMap (s : String) :
    encodeText s = s.toList.flatMap String.utf8EncodeChar := by
  have h : encodeText (String.ofList s.toList) = s.toList.flatMap String.utf8EncodeChar := by
    rw [encodeText, String.toUTF8_eq_toByteArray, String.toByteArray_ofList, List.utf8Encode,
      List.toList_data_toByteArray]
  rwa [String.ofList_toList] at h

/-- A character is one byte with its own number, or it consists of bytes above those of
    such characters. -/
theorem utf8EncodeChar_cases (c : Char) : (∃ b, String.utf8EncodeChar c = [b] ∧ b.toNat = c.toNat) ∨
    ∀ b ∈ String.utf8EncodeChar c, 128 ≤ b.toNat := by
  fun_cases String.utf8EncodeChar c with
  | case1 v hv =>
    refine .inl ⟨_, rfl, ?_⟩
    rw [UInt8.toNat_ofNat', Nat.mod_eq_of_lt (by omega)]
    rfl
  | case2 | case3 | case4 =>
    refine .inr ?_
    simp only [List.forall_mem_cons, List.not_mem_nil, false_implies, implies_true, and_true,
      UInt8.toNat_ofNat']
    omega

/-- The byte of a line feed stands in no other character. -/
theorem not_mem_encodeText {s : String} (h : '\n' ∉ s.toList) : 10 ∉ encodeText s := by
  rw [encodeText_eq_flatMap, List.mem_flatMap]
  rintro ⟨c, hc, hb⟩
  rcases utf8EncodeChar_cases c with ⟨b, hone, hval⟩ | hhigh
  · rw [hone, List.mem_singleton] at hb
    subst hb
    have : c = '\n' := Char.toNat_inj.1 hval.symm
    exact h (this ▸ hc)
  · exact absurd (hhigh 10 hb) (by decide)

/-- How a line ends. -/
inductive LineEnd where
  | feed
  /-- a carriage return stands before the line feed -/
  | returnFeed
  deriving DecidableEq, Repr

/-- The characters at the end of a line. -/
def LineEnd.text : LineEnd → String
  | feed => "\n"
  | returnFeed => "\r\n"

/-- The bytes of lines, each with its end. -/
def encodeLines (ls : List (String × LineEnd)) : List UInt8 :=
  ls.flatMap fun l => encodeText (l.1 ++ l.2.text)

/-- The text has no line feed, and no carriage return at its end. -/
def IsLine (s : String) : Prop := '\n' ∉ s.toList ∧ s.toList.getLast? ≠ some '\r'

instance (s : String) : Decidable (IsLine s) := inferInstanceAs (Decidable (_ ∧ _))

theorem splitLine_append {line rest : List UInt8} (h : 10 ∉ line) :
    splitLine (line ++ 10 :: rest) = (line ++ [10], rest) := by
  induction line with
  | nil => rfl
  | cons b line ih =>
    rw [List.mem_cons, not_or] at h
    simp [splitLine, Ne.symm h.1, ih h.2]

theorem dropLineEnd_append {s : String} (h : IsLine s) (e : LineEnd) :
    dropLineEnd (s ++ e.text) = s := by
  have hstop : ∀ c, s.toList.reverse.head? = some c → c ≠ '\n' ∧ c ≠ '\r' := by
    intro c hc
    rw [List.head?_reverse] at hc
    exact ⟨fun hn => h.1 (hn ▸ List.mem_of_getLast? hc), fun hr => h.2 (hr ▸ hc)⟩
  have hkeep : s.toList.reverse.dropWhile (fun c => c = '\n' || c = '\r') = s.toList.reverse := by
    cases hs : s.toList.reverse with
    | nil => rfl
    | cons c cs =>
      obtain ⟨hn, hr⟩ := hstop c (by rw [hs]; rfl)
      exact List.dropWhile_cons_of_neg (by simp [hn, hr])
  have hends : dropLineEnd (s ++ e.text) =
      String.ofList (s.toList.reverse.dropWhile fun c => c = '\n' || c = '\r').reverse := by
    cases e <;> simp [dropLineEnd, LineEnd.text]
  rw [hends, hkeep, List.reverse_reverse, String.ofList_toList]

theorem Input.next_reader {bs : List UInt8} (h : bs ≠ []) : (reader bs).next =
    ((decodeText? (splitLine bs).1).map dropLineEnd, reader (splitLine bs).2) := by
  cases bs with
  | nil => exact absurd rfl h
  | cons b bs => rfl

/-- **A reader gives its first line.** -/
theorem Input.next_encodeLines {l : String × LineEnd} (h : IsLine l.1) (ls : List (String × LineEnd)) :
    (reader (encodeLines (l :: ls))).next = (some l.1, reader (encodeLines ls)) := by
  obtain ⟨line, hline, hfeed⟩ : ∃ line, encodeText (l.1 ++ l.2.text) = line ++ [10] ∧ 10 ∉ line := by
    obtain ⟨s, e⟩ := l
    have hs : 10 ∉ encodeText s := not_mem_encodeText h.1
    rw [encodeText_append]
    cases e with
    | feed => exact ⟨_, rfl, hs⟩
    | returnFeed => exact ⟨encodeText s ++ [13], by rw [List.append_assoc]; rfl, by simp [hs]⟩
  have hbytes : encodeLines (l :: ls) = line ++ 10 :: encodeLines ls := by
    simp only [encodeLines, List.flatMap_cons, hline, List.append_assoc, List.singleton_append]
  rw [next_reader (by simp [hbytes]), hbytes, splitLine_append hfeed, ← hline,
    decodeText?_encodeText, Option.map_some, dropLineEnd_append h]

/-- The queue holds the lines that are left, and the reader their bytes. -/
def Input.Spelled (ls : List (String × LineEnd)) (i j : Input) : Prop :=
  ∃ rest, rest <:+ ls ∧ i = .queue (rest.map Prod.fst) ∧ j = .reader (encodeLines rest)

theorem Input.agree_spelled {ls : List (String × LineEnd)} (h : ∀ l ∈ ls, IsLine l.1) :
    Agree (Spelled ls) fun _ => False := by
  rintro _ _ ⟨rest, hrest, rfl, rfl⟩
  refine .inl ?_
  cases rest with
  | nil => exact ⟨rfl, [], List.nil_suffix, rfl, rfl⟩
  | cons l rest =>
    have hl : IsLine l.1 := h l (hrest.mem List.mem_cons_self)
    rw [next_encodeLines hl]
    exact ⟨rfl, rest, (List.suffix_cons l rest).trans hrest, rfl, rfl⟩

namespace Linked

/-- The ends of runs one after another, each from the state in which the one before
    ended, whether it failed or not. -/
def runs {W : Type} [Writer W] (p : Linked) : List Nat → State W → List (State W × Outcome)
  | [], _ => []
  | n :: ns, s => p.run n s :: runs p ns (p.run n s).1

theorem runs_matched {W : Type} [Writer W] {p : Linked} {R : Input → Input → Prop}
    (hR : Input.Agree R fun _ => False) (ns : List Nat) {s : State W} {j : Input}
    (hj : R s.input j) :
    List.Forall₂ (SameEnd R) (p.runs ns s) (p.runs ns { s with input := j }) := by
  induction ns generalizing s j with
  | nil => exact .nil
  | cons n ns ih =>
    rcases run_matched hR hj n (p := p) with hsame | ⟨r, -, hF⟩
    · refine .cons hsame ?_
      obtain ⟨j', hj', hsame⟩ := hsame
      rw [hsame]
      exact ih hj'
    · exact hF.elim

/-- **A queue and a reader are interchangeable.**  A machine with a queue of lines and a
    machine with a reader of their bytes, whatever line end each of them has, go through
    the same states, with the same output and the same outcome after any number of steps.
    So they do in further runs, also behind a failure and when the inputs have run out. -/
theorem runs_reader {W : Type} [Writer W] (p : Linked) (s : State W) {ls : List (String × LineEnd)}
    (h : ∀ l ∈ ls, IsLine l.1) (ns : List Nat) :
    List.Forall₂ (SameEnd (Input.Spelled ls))
      (p.runs ns { s with input := .queue (ls.map Prod.fst) })
      (p.runs ns { s with input := .reader (encodeLines ls) }) :=
  runs_matched (Input.agree_spelled h) ns ⟨ls, List.suffix_refl ls, rfl, rfl⟩

/-- A machine that prints its inputs: an empty line, and one with a carriage return in
    it.  Then the inputs run out, and they do so again in the third run. -/
theorem runs_reader_echo :
    let ls := [("", LineEnd.returnFeed), ("a\rb", .feed)]
    let queue : State := { input := .queue ["", "a\rb"], sink := {} }
    let reader : State := { input := .reader [13, 10, 97, 13, 98, 10], sink := {} }
    (∀ l ∈ ls, IsLine l.1) ∧
      ∃ p, Code.link [.named .label "L", .typed .read .string, .print 1, .named .jmp "L"] = .ok p ∧
        (p.runs [20, 20, 20] queue).map (fun e => (e.1.sink.text, e.2.report?.map Report.fault)) =
          [("\na\rb\n", some .inputExhausted), ("\na\rb\n", some .stackUnderflow),
            ("\na\rb\n", some .inputExhausted)] ∧
        List.Forall₂ (SameEnd (Input.Spelled ls)) (p.runs [20, 20, 20] queue)
          (p.runs [20, 20, 20] reader) := by
  intro ls queue reader
  have hls : ∀ l ∈ ls, IsLine l.1 := by decide
  have hbytes : encodeLines ls = [13, 10, 97, 13, 98, 10] := by decide
  refine ⟨hls, _, rfl, by decide +kernel, ?_⟩
  have hsame := runs_reader ⟨#[.named .label "L", .typed .read .string, .print 1, .named .jmp "L"],
    [("L", 0)]⟩ queue hls [20, 20, 20]
  rwa [hbytes] at hsame

end Linked

end StackLang
