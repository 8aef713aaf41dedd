/-
  What the code of a program does is what the program means.

  `Linked.Agrees m p inputs k` relates the runs of a machine with a queue of inputs
  and the writer `k` to the walks of a program: they end in the same world, they fail
  with the same fault in the same world, or neither ends.  A walk that was cut off is
  in a world that the machine passes through, and the machine never prints anything
  that a walk does not print.

  `Program.run_agrees`: the code that a generator makes of a program agrees with
  the program, whether the program is well typed or not, and whatever it writes to.
-/
import StackLang.Proofs.Follow
import StackLang.Proofs.Frame
import StackLang.Proofs.Label

namespace StackLang

namespace Linked

variable {W : Type}

/-! ## Runs that follow a walk -/

/-- The end of a run is that of a walk. -/
def Shows (j : Nat) : EStateM.Result Stop (World W) Unit → State W × Outcome → Prop
  | .ok _ w, (t, o) => o = .done ∧ t.At w j []
  | .error (.fault f) w, (t, o) => (∃ r, o = .failed r ∧ r.fault = f) ∧ t.InWorld w
  | .error .unfinished w, (t, o) => o = .unfinished ∧ t.InWorld w

theorem Shows.inWorld {j : Nat} {r : EStateM.Result Stop (World W) Unit} {o : State W × Outcome}
    (h : Shows j r o) : o.1.InWorld (stateOf r) := by
  rcases r with ⟨_, w⟩ | ⟨f | _, w⟩
  · exact h.2.toInWorld
  · exact h.2
  · exact h.2

variable [Writer W] {p : Linked} {s : State W}

theorem shows_finish {t : State W} {w : World W} {j : Nat} (h : t.At w j []) :
    Shows j (Walk.finish w) (p.finish t) := by
  rcases t with ⟨i, σ, m, inp, k⟩
  rcases w with ⟨ρ, is, out⟩
  obtain ⟨⟨hvars, hin, rfl⟩, rfl, rfl⟩ := h
  simp only [Walk.finish, finish, bind, EStateM.bind, get, getThe, MonadStateOf.get, get_apply]
  rcases Writer.flush k with ⟨cause | _, k'⟩
  · exact ⟨⟨_, rfl, rfl⟩, hvars, hin, rfl⟩
  · exact ⟨rfl, ⟨hvars, hin, rfl⟩, rfl, rfl⟩

/-- A walk and the completion of its output, and the same of a machine that follows
    it. -/
theorem Follows.exists_run {n j : Nat} {x : Walk W Unit} {w₀ : World W}
    (h : p.Follows n s j (x w₀)) (hj : p.get? j = none) :
    ∃ fuel, n ≤ fuel ∧ Shows j ((x >>= fun _ => Walk.finish) w₀) (p.run fuel s) := by
  simp only [Bind.bind, EStateM.bind]
  rcases hx : x w₀ with ⟨_, w⟩ | ⟨f | _, w⟩
  · rw [hx] at h
    obtain ⟨k, t, hk, ht⟩ := h
    have hrun := hk.run_eq_of_halted (step_eq_halted (ht.ip ▸ hj))
    refine ⟨k + 1 + n, Nat.le_add_left n _, ?_⟩
    rw [run_add_of_ended (by rw [hrun]; exact finish_ne_unfinished p t), hrun]
    exact shows_finish ht
  · rw [hx] at h
    obtain ⟨k, t, u, r, hk, ht, hu, hr⟩ := h
    have hrun := hk.run_eq_of_failed ht
    refine ⟨k + 1 + n, Nat.le_add_left n _, ?_⟩
    rw [run_add_of_ended (by rw [hrun]; simp), hrun]
    exact ⟨⟨r, rfl, hr⟩, hu⟩
  · rw [hx] at h
    obtain ⟨k, t, hn, hk, ht⟩ := h
    refine ⟨k, hn, ?_⟩
    rw [run_of_steps hk]
    exact ⟨rfl, ht⟩

/-- The walks with more and more rounds, and the runs of a machine that follows
    them. -/
def Tracks (p : Linked) (s : State W) (j : Nat) (r : Nat → EStateM.Result Stop (World W) Unit) :
    Prop := ∀ n, ∃ fuel, n ≤ fuel ∧ Shows j (r n) (p.run fuel s)

namespace Tracks

variable {j : Nat} {r : Nat → EStateM.Result Stop (World W) Unit} (h : p.Tracks s j r)

include h

/-- A run that ended is shown by a walk with as many rounds, which is over too. -/
theorem shows_of_ended (fuel : Nat) (hend : (p.run fuel s).2 ≠ .unfinished) :
    Shows j (r fuel) (p.run fuel s) := by
  obtain ⟨fuel', hle, hs⟩ := h fuel
  obtain ⟨d, rfl⟩ := Nat.exists_eq_add_of_le hle
  rwa [run_add_of_ended hend] at hs

theorem done_iff {w : World W} : (∃ n, r n = .ok () w) ↔
    ∃ fuel t, p.run fuel s = (t, .done) ∧ t.At w j [] := by
  constructor
  · rintro ⟨n, hn⟩
    obtain ⟨fuel, -, hs⟩ := h n
    rw [hn] at hs
    exact ⟨fuel, _, Prod.ext rfl hs.1, hs.2⟩
  · rintro ⟨fuel, t, hr, ht⟩
    have hs := h.shows_of_ended fuel (by rw [hr]; simp)
    refine ⟨fuel, ?_⟩
    rw [hr] at hs
    rcases hx : r fuel with ⟨_, w'⟩ | ⟨f | _, w'⟩
    · rw [hx] at hs
      rw [hs.2.inj ht.toInWorld]
    · rw [hx] at hs
      obtain ⟨⟨e, he, -⟩, -⟩ := hs
      cases he
    · rw [hx] at hs
      cases hs.1

theorem failed_iff {f : Fault} {w : World W} : (∃ n, r n = .error (.fault f) w) ↔
    ∃ fuel t e, p.run fuel s = (t, .failed e) ∧ e.fault = f ∧ t.InWorld w := by
  constructor
  · rintro ⟨n, hn⟩
    obtain ⟨fuel, -, hs⟩ := h n
    rw [hn] at hs
    obtain ⟨⟨e, he, hf⟩, hw⟩ := hs
    exact ⟨fuel, _, e, Prod.ext rfl he, hf, hw⟩
  · rintro ⟨fuel, t, e, hr, rfl, ht⟩
    have hs := h.shows_of_ended fuel (by rw [hr]; simp)
    refine ⟨fuel, ?_⟩
    rw [hr] at hs
    rcases hx : r fuel with ⟨_, w'⟩ | ⟨f | _, w'⟩
    · rw [hx] at hs
      cases hs.1
    · rw [hx] at hs
      obtain ⟨⟨e', he, rfl⟩, hw⟩ := hs
      rw [hw.inj ht, Outcome.failed.inj he]
    · rw [hx] at hs
      cases hs.1

theorem diverges_iff : (∀ n, ∃ w, r n = .error .unfinished w) ↔
    ∀ fuel, (p.run fuel s).2 = .unfinished := by
  constructor
  · intro hall fuel
    refine Decidable.byContradiction fun hend => hend ?_
    have hs := h.shows_of_ended fuel hend
    obtain ⟨w, hw⟩ := hall fuel
    rw [hw] at hs
    exact hs.1
  · intro hall n
    obtain ⟨fuel, -, hs⟩ := h n
    have hfuel := hall fuel
    rcases hx : r n with ⟨_, w⟩ | ⟨f | _, w⟩
    · rw [hx] at hs
      rw [hs.1] at hfuel
      cases hfuel
    · rw [hx] at hs
      obtain ⟨⟨e, he, -⟩, -⟩ := hs
      rw [he] at hfuel
      cases hfuel
    · exact ⟨w, rfl⟩

theorem passes {n : Nat} {w : World W} (hn : r n = .error .unfinished w) :
    ∃ fuel t, p.run fuel s = (t, .unfinished) ∧ t.InWorld w := by
  obtain ⟨fuel, -, hs⟩ := h n
  rw [hn] at hs
  exact ⟨fuel, _, Prod.ext rfl hs.1, hs.2⟩

theorem printed (fuel : Nat) :
    ∃ ts, Writer.Written (p.run fuel s).1.sink ts (stateOf (r fuel)).out := by
  obtain ⟨fuel', hle, hs⟩ := h fuel
  rw [← hs.inWorld.out]
  exact run_written_of_le hle

end Tracks

/-! ## Agreement -/

/-- The runs of a machine on a queue of inputs agree with the walks of a program that
    print to the same writer. -/
structure Agrees (m : Linked) (p : Program) (inputs : List String) (k : W) : Prop where
  /-- They end in the same world, and the machine with an empty stack. -/
  done : ∀ w, (∃ n, (p.walk n).run { inputs := inputs, out := k } = .ok () w) ↔
    ∃ fuel t, m.run fuel { input := .queue inputs, sink := k } = (t, .done) ∧
      t.At w m.code.size []
  /-- They fail with the same fault in the same world. -/
  failed : ∀ f w, (∃ n, (p.walk n).run { inputs := inputs, out := k } = .error (.fault f) w) ↔
    ∃ fuel t r, m.run fuel { input := .queue inputs, sink := k } = (t, .failed r) ∧
      r.fault = f ∧ t.InWorld w
  /-- They go on forever together. -/
  diverges : (∀ n, ∃ w, (p.walk n).run { inputs := inputs, out := k } = .error .unfinished w) ↔
    ∀ fuel, (m.run fuel { input := .queue inputs, sink := k }).2 = .unfinished
  /-- The machine passes through the world of a walk that was cut off. -/
  passes : ∀ n w, (p.walk n).run { inputs := inputs, out := k } = .error .unfinished w →
    ∃ fuel t, m.run fuel { input := .queue inputs, sink := k } = (t, .unfinished) ∧ t.InWorld w
  /-- What the machine printed at any time, a walk prints, and what it prints besides
      comes behind that. -/
  printed : ∀ fuel, ∃ n ts,
    Writer.Written (m.run fuel { input := .queue inputs, sink := k }).1.sink ts
      (stateOf ((p.walk n).run { inputs := inputs, out := k })).out

end Linked

/-- **The code of a program does what the program means**, whether the program is
    well typed or not. -/
theorem Program.run_agrees {p : Program} {code : List Instr} (h : p.gen = .ok code) :
    ∃ m, Code.link code = .ok m ∧
      ∀ {W : Type} [Writer W] (inputs : List String) (k : W), m.Agrees p inputs k := by
  obtain ⟨m, hm⟩ := p.link_of_gen h
  obtain ⟨Γ, n, hp⟩ := p.emitsAll_of_gen h
  refine ⟨m, hm, fun {W} _ inputs k => ?_⟩
  have hcode : m.Holds 0 code := fun j _ => by rw [Nat.zero_add]; exact Code.get?_of_link hm j
  have hend : m.get? m.code.size = none := by simp [Linked.get?]
  have hstart : State.At (W := W) { input := .queue inputs, sink := k }
      { inputs := inputs, out := k } 0 [] := ⟨⟨rfl, rfl, rfl⟩, rfl, rfl⟩
  have htracks : m.Tracks { input := .queue inputs, sink := k } m.code.size
      fun N => (p.walk N).run { inputs := inputs, out := k } := by
    intro N
    have hfollows := hp.follows (Code.exact_of_link hm) (N := N) hstart hcode
    rw [Nat.zero_add, ← Code.size_of_link hm] at hfollows
    exact hfollows.exists_run hend
  exact ⟨fun _ => htracks.done_iff, fun _ _ => htracks.failed_iff, htracks.diverges_iff,
    fun _ _ => htracks.passes, fun fuel => ⟨fuel, htracks.printed fuel⟩⟩

/-- A program that counts down from its input. -/
theorem Program.run_agrees_countdown :
    let p : Program := [.decl .int ["i"], .read ["i"],
      .whileLoop (.bin .greater (.var "i") (.lit .int "0"))
        (.block [.write [.var "i"], .assign "i" (.bin .sub (.var "i") (.lit .int "1"))])]
    ∃ code m, p.gen = .ok code ∧ Code.link code = .ok m ∧ m.Agrees p ["2"] ({} : Sink) ∧
      ∃ t, m.run 40 { input := .queue ["2"], sink := ({} : Sink) } = (t, .done) ∧
        t.sink.text = "2\n1\n" ∧ t.store.get? "i" = some (.int 0) := by
  intro p
  have hgen : p.gen = .ok [.typed .read .int, .named .save "i", .named .label "L0",
      .named .load "i", .push .int "0", .typed .gt .int, .named .fjmp "L1", .named .load "i",
      .print 1, .named .load "i", .push .int "1", .typed .sub .int, .named .save "i",
      .named .jmp "L0", .named .label "L1"] := rfl
  obtain ⟨m, hm, ha⟩ := Program.run_agrees hgen
  refine ⟨_, m, hgen, hm, ha ["2"] ({} : Sink), ?_⟩
  cases hm
  exact ⟨_, Prod.ext rfl (by decide +kernel), by decide +kernel, by decide +kernel⟩

end StackLang
