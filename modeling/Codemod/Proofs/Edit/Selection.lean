import Codemod.Finding
import Codemod.Proofs.Edit.Composition
/-!
# Selected findings compose

The findings that are kept are among the findings, and no two of them clash
(`Finding.pairwise_selectCompatible`). One is only dropped for another that was
considered before it (`Finding.mem_selectCompatible_or_clashes`). So when each
finding agrees with itself and all edits fit the source, what is kept makes a
script (`EditScript.compose_selectCompatible`).
-/

namespace Codemod

namespace Finding

variable {f g : Finding} {fs kept : List Finding}

theorem clashesWith_eq_false_iff :
    f.clashesWith g = false ↔ ∀ e ∈ f.edits, ∀ e' ∈ g.edits, e.conflictsWith e' = false := by
  simp [clashesWith]

theorem clashesWith_comm (h : f.clashesWith g = false) : g.clashesWith f = false := by
  rw [clashesWith_eq_false_iff] at h ⊢
  intro e he e' he'
  rw [Edit.conflictsWith_comm]
  exact h e' he' e he

/-! ## What is kept -/

theorem mem_of_mem_keep (h : f ∈ keep kept fs) : f ∈ kept ∨ f ∈ fs := by
  induction fs generalizing kept with
  | nil => exact .inl h
  | cons g fs ih =>
    rw [keep] at h
    split at h
    · exact (ih h).imp_right (List.mem_cons_of_mem _)
    · rcases ih h with hkept | hlater
      · rcases List.mem_cons.1 hkept with rfl | hkept
        · exact .inr List.mem_cons_self
        · exact .inl hkept
      · exact .inr (List.mem_cons_of_mem _ hlater)

/-- Whatever is kept clashes with nothing kept before. -/
theorem pairwise_keep (h : kept.Pairwise fun f g => f.clashesWith g = false) :
    (keep kept fs).Pairwise fun f g => f.clashesWith g = false := by
  induction fs generalizing kept with
  | nil => exact h
  | cons g fs ih =>
    rw [keep]
    split
    · exact ih h
    · rename_i hfits
      refine ih (List.pairwise_cons.2 ⟨fun f hf => ?_, h⟩)
      rw [Bool.not_eq_true, List.any_eq_false] at hfits
      exact Bool.eq_false_iff.2 (hfits f hf)

/-- The selected findings are those that are kept, in another order. -/
theorem selectCompatible_perm (fs : List Finding) :
    (selectCompatible fs).Perm (keep [] (fs.mergeSort considered)) :=
  (List.mergeSort_perm _ _).trans (List.reverse_perm _)

theorem mem_of_mem_selectCompatible (h : f ∈ selectCompatible fs) : f ∈ fs := by
  rcases mem_of_mem_keep ((selectCompatible_perm fs).subset h) with hkept | hf
  · exact absurd hkept List.not_mem_nil
  · exact List.mem_mergeSort.1 hf

/-- **No two selected findings clash.** -/
theorem pairwise_selectCompatible (fs : List Finding) :
    (selectCompatible fs).Pairwise fun f g => f.clashesWith g = false :=
  (selectCompatible_perm fs).symm.pairwise (pairwise_keep .nil) clashesWith_comm

/-- Nor does any with any, where each that is selected agrees with itself. -/
theorem not_clashesWith_of_selected (hself : ∀ f ∈ selectCompatible fs, f.clashesWith f = false)
    (hf : f ∈ selectCompatible fs) (hg : g ∈ selectCompatible fs) :
    f.clashesWith g = false := by
  have hpairwise := pairwise_selectCompatible fs
  exact hpairwise.forall_of_forall_of_flip hself (hpairwise.imp clashesWith_comm) hf hg

theorem not_clashesWith_of_mem_selectCompatible (hself : ∀ f ∈ fs, f.clashesWith f = false)
    (hf : f ∈ selectCompatible fs) (hg : g ∈ selectCompatible fs) :
    f.clashesWith g = false :=
  not_clashesWith_of_selected (fun f hf => hself f (mem_of_mem_selectCompatible hf)) hf hg

/-- **Selected findings are in the order of the text.** -/
theorem ordered_selectCompatible (fs : List Finding) :
    (selectCompatible fs).Pairwise fun f g => g.span.precedes f.span = false := by
  refine (List.pairwise_mergeSort (fun f g k hfg hgk => ?_) (fun f g => ?_) _).imp fun h => ?_
  · rw [Bool.not_eq_true', ← Bool.not_eq_true, Span.precedes_iff] at hfg hgk ⊢
    omega
  · rw [Bool.or_eq_true, Bool.not_eq_true', Bool.not_eq_true', ← Bool.not_eq_true,
      ← Bool.not_eq_true, Span.precedes_iff, Span.precedes_iff]
    omega
  · exact Bool.not_eq_true' _ ▸ h

/-! ## What is dropped -/

theorem considered_iff : f.considered g = true ↔
    g.span.length < f.span.length ∨
      f.span.length = g.span.length ∧ f.span.start ≤ g.span.start := by
  simp [considered]

/-- The findings are put in the order in which they are considered. -/
theorem pairwise_considered (fs : List Finding) :
    (fs.mergeSort considered).Pairwise fun f g => f.considered g = true := by
  refine List.pairwise_mergeSort (fun f g k hfg hgk => ?_) (fun f g => ?_) fs
  · rw [considered_iff] at hfg hgk ⊢
    omega
  · rw [Bool.or_eq_true, considered_iff, considered_iff]
    omega

theorem mem_keep_of_mem (h : f ∈ kept) : f ∈ keep kept fs := by
  induction fs generalizing kept with
  | nil => exact h
  | cons g fs ih =>
    rw [keep]
    split
    · exact ih h
    · exact ih (List.mem_cons_of_mem _ h)

/-- What is not kept clashes with something that was considered before. -/
theorem mem_keep_or_clashes (hkept : ∀ k ∈ kept, ∀ f ∈ fs, k.considered f = true)
    (hordered : fs.Pairwise fun f g => f.considered g = true) (hf : f ∈ fs) :
    f ∈ keep kept fs ∨
      ∃ g ∈ keep kept fs, f.clashesWith g = true ∧ g.considered f = true := by
  induction fs generalizing kept with
  | nil => exact absurd hf List.not_mem_nil
  | cons g fs ih =>
    obtain ⟨hg, hordered⟩ := List.pairwise_cons.1 hordered
    have hlater : ∀ k ∈ kept, ∀ f ∈ fs, k.considered f = true := fun k hk f hf =>
      hkept k hk f (List.mem_cons_of_mem _ hf)
    rw [keep]
    split
    · rename_i hclash
      rcases List.mem_cons.1 hf with rfl | hf
      · obtain ⟨k, hk, hclash⟩ := List.any_eq_true.1 hclash
        exact .inr ⟨k, mem_keep_of_mem hk, hclash, hkept k hk f List.mem_cons_self⟩
      · exact ih hlater hordered hf
    · rcases List.mem_cons.1 hf with rfl | hf
      · exact .inl (mem_keep_of_mem List.mem_cons_self)
      · exact ih (List.forall_mem_cons.2 ⟨hg, hlater⟩) hordered hf

/-- **What is not selected clashes with something selected that was considered
before.** -/
theorem mem_selectCompatible_or_clashes (hf : f ∈ fs) :
    f ∈ selectCompatible fs ∨
      ∃ g ∈ selectCompatible fs, f.clashesWith g = true ∧ g.considered f = true := by
  have hkeep : f ∈ keep [] (fs.mergeSort considered) ∨
      ∃ g ∈ keep [] (fs.mergeSort considered), f.clashesWith g = true ∧ g.considered f = true :=
    mem_keep_or_clashes nofun (pairwise_considered fs) (List.mem_mergeSort.2 hf)
  simpa only [(selectCompatible_perm fs).mem_iff] using hkeep

end Finding

namespace EditScript

open Finding

variable {fs : List Finding} {source : String}

/-- An edit among the proposals is one of a finding. -/
theorem mem_proposals_iff {e : Edit} :
    e ∈ (fs.flatMap fun f => f.edits.map (f.rule, ·)).map (·.2) ↔ ∃ f ∈ fs, e ∈ f.edits := by
  simp only [List.map_flatMap, List.map_map, Function.comp_def, List.map_id', List.mem_flatMap]

/-- **Selected findings make a script** when their edits fit the source and none
clashes with itself. -/
theorem compose_selectCompatible_eq_ok
    (hfits : ∀ f ∈ fs, ∀ e ∈ f.edits, ∃ text, e.span.slice? source = some text)
    (hself : ∀ f ∈ fs, f.clashesWith f = false) :
    ∃ script, compose (selectCompatible fs) source = .ok script ∧
      script.edits = distinct ((selectCompatible fs).flatMap fun f => f.edits.map (f.rule, ·)) := by
  have hproposed : ∀ p ∈ (selectCompatible fs).flatMap fun f => f.edits.map (f.rule, ·),
      ∃ f ∈ selectCompatible fs, p.2 ∈ f.edits := fun p hp =>
    mem_proposals_iff.1 (List.mem_map_of_mem hp)
  refine ⟨_, ofProposals_eq_ok (fun p hp => ?_) (fun p hp q hq => ?_), rfl⟩
  · obtain ⟨f, hf, he⟩ := hproposed p hp
    obtain ⟨text, htext⟩ := hfits f (mem_of_mem_selectCompatible hf) p.2 he
    exact checkBounds_eq_ok htext
  · obtain ⟨f, hf, he⟩ := hproposed p hp
    obtain ⟨g, hg, he'⟩ := hproposed q hq
    have hclash := not_clashesWith_of_mem_selectCompatible hself hf hg
    exact clashesWith_eq_false_iff.1 hclash _ he _ he'

/-- The script has all their edits, in order. -/
theorem compose_selectCompatible
    (hfits : ∀ f ∈ fs, ∀ e ∈ f.edits, ∃ text, e.span.slice? source = some text)
    (hself : ∀ f ∈ fs, f.clashesWith f = false) {es : List Edit}
    (hmem : ∀ e, (∃ f ∈ selectCompatible fs, e ∈ f.edits) ↔ e ∈ es)
    (hordered : es.Pairwise Precedes) :
    ∃ script, compose (selectCompatible fs) source = .ok script ∧ script.edits = es := by
  obtain ⟨script, hscript, hedits⟩ := compose_selectCompatible_eq_ok hfits hself
  exact ⟨script, hscript,
    hedits.trans (distinct_eq (fun e => mem_proposals_iff.trans (hmem e)) hordered)⟩

end EditScript

end Codemod
