/-
  Code with other labels.

  * `Code.relabel f code` has `f l` for every label `l`.  Renamings compose
    (`Code.relabel_relabel`), and only the labels that occur count
    (`Code.relabel_congr`), so that a one-to-one renaming can be undone
    (`Code.relabel_leftInvOn`);
  * the normal form of code is such a renaming of it (`Code.injOn_normalName`), and
    code has the same normal form when its labels are renamed one-to-one
    (`Code.normalize_relabel`);
  * hence two programs have the same normal form exactly if one is a one-to-one
    renaming of the other (`Code.normalize_eq_iff`).
-/
import Mathlib.Data.Set.Function
import StackLang.Code.Labels
import StackLang.Proofs.Label

namespace StackLang

namespace Instr

variable {f g : String → String}

@[simp] theorem labelName?_mapLabel (i : Instr) :
    (i.mapLabel f).labelName? = i.labelName?.map f := by
  rcases i with _ | _ | _ | _ | ⟨_ | _ | _ | _ | _, l⟩ <;> rfl

@[simp] theorem mapLabel_id (i : Instr) : i.mapLabel id = i := by
  rcases i with _ | _ | _ | _ | ⟨_ | _ | _ | _ | _, l⟩ <;> rfl

@[simp] theorem mapLabel_mapLabel (i : Instr) :
    (i.mapLabel f).mapLabel g = i.mapLabel (g ∘ f) := by
  rcases i with _ | _ | _ | _ | ⟨_ | _ | _ | _ | _, l⟩ <;> rfl

/-- Only the label of an instruction counts. -/
theorem mapLabel_congr {i : Instr} (h : ∀ l, i.labelName? = some l → f l = g l) :
    i.mapLabel f = i.mapLabel g := by
  rcases i with _ | _ | _ | _ | ⟨_ | _ | _ | _ | _, l⟩ <;> first | rfl | simp only [mapLabel, h l rfl]

end Instr

namespace Code

variable {f g : String → String} {code : List Instr}

/-! ## Renaming -/

/-- The labels in code, as targets and as definitions, in order. -/
def labelNames (code : List Instr) : List String := code.filterMap Instr.labelName?

/-- The set of the labels in code. -/
def labelSet (code : List Instr) : Set String := {l | l ∈ labelNames code}

/-- Renames the labels in code. -/
def relabel (f : String → String) (code : List Instr) : List Instr := code.map (Instr.mapLabel f)

theorem mem_labelSet_of_mem {i : Instr} {l : String} (hi : i ∈ code) (hl : i.labelName? = some l) :
    l ∈ labelSet code := List.mem_filterMap.2 ⟨i, hi, hl⟩

theorem labelNames_relabel : labelNames (relabel f code) = (labelNames code).map f := by
  simp [labelNames, relabel, List.filterMap_map, List.map_filterMap]

theorem labelSet_relabel : labelSet (relabel f code) = f '' labelSet code := by
  ext l
  simp [labelSet, labelNames_relabel]

theorem relabel_id : relabel id code = code := by
  rw [relabel, List.map_congr_left fun i _ => i.mapLabel_id, List.map_id']

theorem relabel_relabel : relabel g (relabel f code) = relabel (g ∘ f) code := by
  simp [relabel]

/-- Renamings that agree on the labels in code give the same code. -/
theorem relabel_congr (h : Set.EqOn f g (labelSet code)) : relabel f code = relabel g code :=
  List.map_congr_left fun _ hi => Instr.mapLabel_congr fun _ hl => h (mem_labelSet_of_mem hi hl)

/-- A renaming is undone by one that leads its labels back. -/
theorem relabel_leftInvOn (h : Set.LeftInvOn g f (labelSet code)) :
    relabel g (relabel f code) = code := by
  have hid : Set.EqOn (g ∘ f) id (labelSet code) := h
  rw [relabel_relabel, relabel_congr hid, relabel_id]

/-- Two programs that can be renamed to the same one, each of them one-to-one, are
    renamings of each other. -/
theorem exists_bijOn_of_relabel_eq {c₁ c₂ : List Instr} (hf : Set.InjOn f (labelSet c₁))
    (hg : Set.InjOn g (labelSet c₂)) (h : relabel f c₁ = relabel g c₂) :
    ∃ e, Set.BijOn e (labelSet c₁) (labelSet c₂) ∧ relabel e c₁ = c₂ := by
  have himage : f '' labelSet c₁ = g '' labelSet c₂ := by
    rw [← labelSet_relabel, h, labelSet_relabel]
  have hfb : Set.BijOn f (labelSet c₁) (g '' labelSet c₂) := himage ▸ hf.bijOn_image
  have hgb : Set.BijOn g (labelSet c₂) (g '' labelSet c₂) := hg.bijOn_image
  -- lead each label to its name in the common program, and from there back
  have hinv := hgb.invOn_invFunOn
  refine ⟨Function.invFunOn g (labelSet c₂) ∘ f, (hgb.symm hinv.symm).comp hfb, ?_⟩
  rw [← relabel_relabel, h]
  exact relabel_leftInvOn hinv.1

/-- Renamed labels are equal exactly if they were. -/
theorem beq_of_injOn {S : Set String} (hf : Set.InjOn f S) {k l : String} (hk : k ∈ S)
    (hl : l ∈ S) : (f k == f l) = (k == l) := by
  rw [Bool.eq_iff_iff, beq_iff_eq, beq_iff_eq, hf.eq_iff hk hl]

/-! ## The order of first appearance -/

/-- The labels of code in the order of their first appearance, behind those that were seen
    before. -/
def labels (seen : List String) (code : List Instr) : List String :=
  (labelNames code).foldl addLabel seen

theorem mem_addLabel {seen : List String} {l k : String} :
    k ∈ addLabel seen l ↔ k ∈ seen ∨ k = l := by
  unfold addLabel
  split
  · next hl =>
    refine ⟨.inl, ?_⟩
    rintro (hk | rfl)
    · exact hk
    · exact hl
  · simp

theorem mem_foldl_addLabel {names seen : List String} {k : String} :
    k ∈ names.foldl addLabel seen ↔ k ∈ seen ∨ k ∈ names := by
  induction names generalizing seen with
  | nil => simp
  | cons l names ih => rw [List.foldl_cons, ih, mem_addLabel, List.mem_cons, or_assoc]

/-- Labels that were seen keep their places. -/
theorem prefix_foldl_addLabel (names seen : List String) : seen <+: names.foldl addLabel seen := by
  induction names generalizing seen with
  | nil => exact List.prefix_refl seen
  | cons l names ih =>
    have hstep : seen <+: addLabel seen l := by
      unfold addLabel
      split
      · exact List.prefix_refl seen
      · exact List.prefix_append seen [l]
    exact hstep.trans (ih (addLabel seen l))

/-- The order of first appearance has exactly the labels in code. -/
theorem mem_labels {l : String} : l ∈ labels [] code ↔ l ∈ labelSet code := by
  simp [labels, mem_foldl_addLabel, labelSet]

/-- A label is new to a renamed list exactly if it was new before. -/
theorem addLabel_map {S : Set String} (hf : Set.InjOn f S) {seen : List String} {l : String}
    (hs : ∀ k ∈ seen, k ∈ S) (hl : l ∈ S) :
    addLabel (seen.map f) (f l) = (addLabel seen l).map f := by
  have hmem : f l ∈ seen.map f ↔ l ∈ seen := by
    rw [List.mem_map]
    constructor
    · rintro ⟨k, hk, he⟩
      rwa [← hf (hs k hk) hl he]
    · exact fun h => ⟨l, h, rfl⟩
  unfold addLabel
  by_cases h : l ∈ seen
  · rw [if_pos h, if_pos (hmem.2 h)]
  · rw [if_neg h, if_neg (mt hmem.1 h), List.map_append, List.map_singleton]

theorem foldl_addLabel_map {S : Set String} (hf : Set.InjOn f S) {names seen : List String}
    (hs : ∀ k ∈ seen, k ∈ S) (hn : ∀ k ∈ names, k ∈ S) :
    (names.map f).foldl addLabel (seen.map f) = (names.foldl addLabel seen).map f := by
  induction names generalizing seen with
  | nil => rfl
  | cons l names ih =>
    obtain ⟨hl, hn⟩ := List.forall_mem_cons.1 hn
    have hs' : ∀ k ∈ addLabel seen l, k ∈ S := by
      intro k hk
      rcases mem_addLabel.1 hk with hk | rfl
      · exact hs k hk
      · exact hl
    rw [List.map_cons, List.foldl_cons, List.foldl_cons, addLabel_map hf hs hl, ih hs' hn]

/-- Renamed labels appear in the same order. -/
theorem labels_relabel (hf : Set.InjOn f (labelSet code)) :
    labels [] (relabel f code) = (labels [] code).map f := by
  have hfold : ((labelNames code).map f).foldl addLabel ([].map f) =
      ((labelNames code).foldl addLabel []).map f := foldl_addLabel_map hf nofun fun _ h => h
  rwa [← labelNames_relabel] at hfold

theorem idxOf_map {S : Set String} (hf : Set.InjOn f S) {l : String} (hl : l ∈ S) :
    ∀ {ls : List String}, (∀ k ∈ ls, k ∈ S) → (ls.map f).idxOf (f l) = ls.idxOf l
  | [], _ => rfl
  | k :: ls, h => by
    obtain ⟨hk, hls⟩ := List.forall_mem_cons.1 h
    rw [List.map_cons, List.idxOf_cons, List.idxOf_cons, idxOf_map hf hl hls,
      beq_of_injOn hf hk hl]

/-! ## The normal form -/

/-- The name of a label in the normal form of code. -/
def normalName (code : List Instr) (l : String) : String := labelName ((labels [] code).idxOf l)

/-- A label has its name from the time on when it is first seen. -/
theorem normalizeFrom_eq (seen : List String) (code : List Instr) :
    normalizeFrom seen code = relabel (fun l => labelName ((labels seen code).idxOf l)) code := by
  induction code generalizing seen with
  | nil => rfl
  | cons i code ih =>
    have hlabels : labels seen (i :: code) =
        labels (i.labelName?.elim seen (addLabel seen)) code := by
      cases hi : i.labelName? <;> simp [labels, labelNames, hi]
    have hname : ∀ l, i.labelName? = some l →
        (labels seen (i :: code)).idxOf l = (addLabel seen l).idxOf l := by
      intro l hl
      obtain ⟨ls, hls⟩ := prefix_foldl_addLabel (labelNames code) (addLabel seen l)
      rw [hlabels, hl, Option.elim_some, labels, ← hls]
      exact List.idxOf_append_of_mem (mem_addLabel.2 (.inr rfl))
    rw [normalizeFrom, ih, ← hlabels, relabel, relabel, List.map_cons]
    refine congrArg (· :: _) (Instr.mapLabel_congr fun l hl => ?_)
    rw [hname l hl, hl, Option.elim_some]

theorem normalize_eq_relabel (code : List Instr) :
    normalize code = relabel (normalName code) code := normalizeFrom_eq [] code

/-- **The normal form is a one-to-one renaming**, whatever the labels were called. -/
theorem injOn_normalName (code : List Instr) : Set.InjOn (normalName code) (labelSet code) := by
  intro l hl k _ h
  exact (List.idxOf_inj (mem_labels.2 hl)).1 (labelName_injective h)

theorem normalName_relabel (hf : Set.InjOn f (labelSet code)) {l : String}
    (hl : l ∈ labelSet code) : normalName (relabel f code) (f l) = normalName code l := by
  rw [normalName, labels_relabel hf, idxOf_map hf hl fun _ => mem_labels.1, normalName]

/-- **Code has the same normal form when its labels are renamed one-to-one.** -/
theorem normalize_relabel (hf : Set.InjOn f (labelSet code)) :
    normalize (relabel f code) = normalize code := by
  have hname : Set.EqOn (normalName (relabel f code) ∘ f) (normalName code) (labelSet code) :=
    fun l hl => normalName_relabel hf hl
  rw [normalize_eq_relabel, relabel_relabel, relabel_congr hname, normalize_eq_relabel]

/-- **Two programs have the same normal form exactly if their labels can be renamed
    one-to-one so that the first becomes the second.**  The normal form is its own
    normal form. -/
theorem normalize_eq_iff (c₁ c₂ : List Instr) :
    (normalize c₁ = normalize c₂ ↔
      ∃ f, Set.BijOn f (labelSet c₁) (labelSet c₂) ∧ relabel f c₁ = c₂) ∧
      normalize (normalize c₁) = normalize c₁ := by
  refine ⟨⟨fun h => ?_, ?_⟩, ?_⟩
  · rw [normalize_eq_relabel, normalize_eq_relabel] at h
    exact exists_bijOn_of_relabel_eq (injOn_normalName c₁) (injOn_normalName c₂) h
  · rintro ⟨f, hf, rfl⟩
    exact (normalize_relabel hf.injOn).symm
  · have hback := normalize_relabel (injOn_normalName c₁)
    rwa [← normalize_eq_relabel] at hback

/-- The old names may be among the new ones, in another order. -/
example : normalize [.named .jmp "L1", .named .label "L0", .named .label "L1"] =
    [.named .jmp "L0", .named .label "L1", .named .label "L0"] := by decide

end Code

end StackLang
