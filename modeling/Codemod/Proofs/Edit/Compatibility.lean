import Codemod.Proofs.Dict
import Codemod.Proofs.Edit.Selection
import Mathlib.Data.List.Chain
/-!
# Edits that make a script

Only neighbours are compared when edits are composed. In the order of scripts
that is enough: an edit that conflicts with no neighbour has ended where the next
one starts, and so before all later ones (`Edit.pairwise_of_isChain`). Proposals
therefore make a script exactly when they fit the source and no two of them
conflict, wherever in the list they stand
(`EditScript.ofProposals_eq_ok_iff`). Which script findings make does not depend
on their order (`EditScript.exists_compose_eq_ok_iff_compatible`).
-/

namespace Codemod

open Outcome

/-! ## Neighbours and all others -/

namespace Edit

variable {a b c : Edit}

/-- The edit replaces a stretch of the source. -/
structure FitsIn (e : Edit) (source : String) : Prop where
  start_le_stop : e.span.start ≤ e.span.stop
  stop_le : e.span.stop ≤ Text.byteCount source
  splits_start : Text.Splits source e.span.start
  splits_stop : Text.Splits source e.span.stop

/-- **An edit that conflicts with none of two neighbours** conflicts with none
further away: if the first does not conflict with the second, nor the second
with the third, then nor does the first with the third. -/
theorem not_conflictsWith_of_between (hab : EditScript.Precedes a b)
    (hbc : EditScript.Precedes b c) (hb : b.span.start ≤ b.span.stop)
    (hfirst : a.conflictsWith b = false) (hsecond : b.conflictsWith c = false) :
    a.conflictsWith c = false := by
  have hstop : a.span.stop ≤ b.span.start :=
    stop_le_of_not_conflictsWith hab.2 hab.1 hfirst
  have hstop' : b.span.stop ≤ c.span.start :=
    stop_le_of_not_conflictsWith hbc.2 hbc.1 hsecond
  have hstart : a.span.start ≤ b.span.start := start_le_of_le hab.1
  have hnot : ¬ c.span.precedes a.span = true := not_precedes_of_le (le_trans hab.1 hbc.1)
  unfold conflictsWith
  rw [if_neg hnot]
  split
  · rfl
  split
  · rename_i hempty
    rw [beq_eq_false_iff_ne]
    intro hplace
    -- The one in between would be a second insertion at the place of the first.
    have hne : a.conflictsWith b = true := by
      simp only [Span.isEmpty, Bool.and_eq_true, decide_eq_true_eq] at hempty
      unfold conflictsWith
      rw [if_neg hab.2, if_pos]
      · rw [beq_iff_eq]
        omega
      · simp only [Span.isEmpty, Bool.and_eq_true, decide_eq_true_eq]
        omega
    rw [hfirst] at hne
    exact Bool.false_ne_true hne
  · rw [decide_eq_false_iff_not]
    omega

/-- **Edits that agree with their neighbours agree with each other.** -/
theorem pairwise_of_isChain {es : List Edit} (hordered : es.Pairwise EditScript.Precedes)
    (hspans : ∀ e ∈ es, e.span.start ≤ e.span.stop)
    (h : es.IsChain fun a b => a.conflictsWith b = false) :
    es.Pairwise fun a b => a.conflictsWith b = false := by
  induction es with
  | nil => exact .nil
  | cons a es ih =>
    obtain ⟨hfirst, hrest⟩ := List.pairwise_cons.1 hordered
    obtain ⟨hnext, hchain⟩ := List.isChain_cons.1 h
    have hlater := ih hrest (fun e he => hspans e (List.mem_cons_of_mem _ he)) hchain
    refine List.pairwise_cons.2 ⟨fun c hc => ?_, hlater⟩
    cases es with
    | nil => exact absurd hc List.not_mem_nil
    | cons b es =>
      have hb : b ∈ b :: es := List.mem_cons_self
      have hab : a.conflictsWith b = false := hnext b rfl
      rcases List.mem_cons.1 hc with rfl | hc
      · exact hab
      · exact not_conflictsWith_of_between (hfirst b hb) ((List.pairwise_cons.1 hrest).1 c hc)
          (hspans b (List.mem_cons_of_mem _ hb)) hab ((List.pairwise_cons.1 hlater).1 c hc)

/-- Whether edits conflict does not depend on where they stand in a list. -/
theorem pairwise_not_conflictsWith_iff {es : List Edit} :
    (es.Pairwise fun a b => a.conflictsWith b = false) ↔
      ∀ a ∈ es, ∀ b ∈ es, a.conflictsWith b = false := by
  constructor
  · intro h a ha b hb
    exact h.forall_of_forall_of_flip (fun e _ => conflictsWith_self e)
      (h.imp fun hab => (conflictsWith_comm _ _).trans hab) ha hb
  · intro h
    exact List.pairwise_of_forall_mem_list fun a ha b hb => h a ha b hb

end Edit

/-! ## Scripts of proposals -/

namespace EditScript

variable {source : String} {ps : List Proposal} {imports : NameSet} {script : EditScript}

theorem checkBounds_eq_ok_iff {p : Proposal} :
    checkBounds source p = .ok () ↔ p.2.FitsIn source := by
  unfold checkBounds
  dsimp only
  split
  · rename_i houtside
    refine iff_of_false nofun fun hfits => ?_
    have := hfits.start_le_stop
    have := hfits.stop_le
    omega
  · rename_i hinside
    split
    · rename_i hsplits
      exact iff_of_true rfl ⟨by omega, by omega, hsplits.1, hsplits.2⟩
    · rename_i hsplits
      exact iff_of_false nofun fun hfits => hsplits ⟨hfits.splits_start, hfits.splits_stop⟩

theorem isChain_of_firstConflict?_eq_none (h : firstConflict? ps = none) :
    (ps.map (·.2)).IsChain fun a b => a.conflictsWith b = false := by
  induction ps with
  | nil => exact .nil
  | cons p ps ih =>
    cases ps with
    | nil => exact .singleton _
    | cons q ps =>
      rw [firstConflict?] at h
      split at h
      · exact absurd h (by simp)
      · rename_i hagree
        exact .cons_cons (Bool.not_eq_true _ ▸ hagree) (ih h)

/-- Where no two proposed edits conflict, nor do two distinct ones. -/
theorem pairwise_not_conflictsWith_distinct
    (h : (ps.map (·.2)).Pairwise fun a b => a.conflictsWith b = false) :
    (distinct ps).Pairwise fun a b => a.conflictsWith b = false := by
  rw [Edit.pairwise_not_conflictsWith_iff] at h ⊢
  exact fun a ha b hb => h a (mem_distinct.1 ha) b (mem_distinct.1 hb)

/-- **Each has then ended where later ones begin.** -/
theorem pairwise_stop_le_distinct
    (h : (ps.map (·.2)).Pairwise fun a b => a.conflictsWith b = false) :
    (distinct ps).Pairwise fun a b => a.span.stop ≤ b.span.start :=
  ((pairwise_distinct ps).and (pairwise_not_conflictsWith_distinct h)).imp fun ⟨hab, hagree⟩ =>
    Edit.stop_le_of_not_conflictsWith hab.2 hab.1 hagree

/-- **What proposals make a script**: those that fit the source, no two of them
in conflict. The script has the distinct edits among them. -/
theorem ofProposals_eq_ok_iff :
    ofProposals source ps imports = .ok script ↔
      ((∀ e ∈ ps.map (·.2), e.FitsIn source) ∧
        (ps.map (·.2)).Pairwise fun a b => a.conflictsWith b = false) ∧
      script = ⟨distinct ps, imports⟩ := by
  constructor
  · intro h
    obtain ⟨⟨⟩, hbounds, h⟩ := bind_eq_ok_iff.1 h
    dsimp only at h
    split at h
    · exact absurd h nofun
    rename_i hnone
    obtain rfl := pure_eq_ok_iff.1 h
    have hfits : ∀ e ∈ ps.map (·.2), e.FitsIn source := by
      intro e he
      obtain ⟨p, hp, rfl⟩ := List.mem_map.1 he
      exact checkBounds_eq_ok_iff.1 (forM_eq_ok_iff.1 hbounds p hp)
    have hdistinct := Edit.pairwise_of_isChain (pairwise_distinct ps)
      (fun e he => (hfits e (mem_distinct.1 he)).start_le_stop)
      (isChain_of_firstConflict?_eq_none hnone)
    refine ⟨⟨hfits, ?_⟩, rfl⟩
    -- Every proposed edit is among the distinct ones.
    rw [Edit.pairwise_not_conflictsWith_iff] at hdistinct ⊢
    exact fun a ha b hb => hdistinct a (mem_distinct.2 ha) b (mem_distinct.2 hb)
  · rintro ⟨⟨hfits, hconflicts⟩, rfl⟩
    rw [Edit.pairwise_not_conflictsWith_iff] at hconflicts
    exact ofProposals_eq_ok
      (fun p hp => checkBounds_eq_ok_iff.2 (hfits p.2 (List.mem_map_of_mem hp)))
      (fun p hp q hq => hconflicts p.2 (List.mem_map_of_mem hp) q.2 (List.mem_map_of_mem hq))

/-! ## Scripts of findings -/

variable {fs gs : List Finding}

/-- The edits that findings prefer. -/
def proposedEdits (fs : List Finding) : List Edit := fs.flatMap Finding.edits

theorem mem_importsOf {name : String} {s : NameSet} :
    name ∈ (fs.foldl (fun imports f => imports.union f.imports) s).toList ↔
      name ∈ s.toList ∨ ∃ f ∈ fs, name ∈ f.imports.toList := by
  induction fs generalizing s with
  | nil => simp
  | cons f fs ih =>
    rw [List.foldl_cons, ih, NameSet.mem_union, or_assoc]
    simp

/-- **What a script of findings holds**: each edit that they prefer once, in
ascending order, and their imports. -/
structure Holds (script : EditScript) (fs : List Finding) : Prop where
  mem_edits : ∀ e, e ∈ script.edits ↔ e ∈ proposedEdits fs
  ascending : script.edits.Pairwise Precedes
  apart : script.edits.Pairwise fun a b => a.span.stop ≤ b.span.start
  insertions : script.edits.Pairwise fun a b =>
    a.span.isEmpty = true → b.span.isEmpty = true → a.span.start ≠ b.span.start
  mem_imports : ∀ name, name ∈ script.imports.toList ↔ ∃ f ∈ fs, name ∈ f.imports.toList

/-- Findings hold the same in any order. -/
theorem Holds.perm (h : script.Holds fs) (hperm : fs.Perm gs) : script.Holds gs where
  mem_edits e := (h.mem_edits e).trans (hperm.flatMap_right _).mem_iff
  ascending := h.ascending
  apart := h.apart
  insertions := h.insertions
  mem_imports name := (h.mem_imports name).trans
    (exists_congr fun _ => and_congr_left fun _ => hperm.mem_iff)

/-- No two scripts hold the same. -/
theorem Holds.eq {other : EditScript} (h : script.Holds fs) (h' : other.Holds fs) :
    script = other := by
  have hnodup : script.edits.Nodup := h.ascending.imp And.right
  have hnodup' : other.edits.Nodup := h'.ascending.imp And.right
  have hperm : script.edits.Perm other.edits :=
    (List.perm_ext_iff_of_nodup hnodup hnodup').2 fun e =>
      (h.mem_edits e).trans (h'.mem_edits e).symm
  have hedits : script.edits = other.edits :=
    hperm.eq_of_pairwise (fun a b _ _ hab hba => Edit.le_antisymm hab.1 hba.1) h.ascending
      h'.ascending
  have himports : script.imports = other.imports :=
    NameSet.ext fun name => (h.mem_imports name).trans (h'.mem_imports name).symm
  obtain ⟨edits, imports⟩ := script
  obtain ⟨edits', imports'⟩ := other
  obtain rfl : edits = edits' := hedits
  obtain rfl : imports = imports' := himports
  rfl

/-- The findings prefer edits that fit the source and do not conflict. -/
def Compatible (source : String) (fs : List Finding) : Prop :=
  (∀ e ∈ proposedEdits fs, e.FitsIn source) ∧
    (proposedEdits fs).Pairwise fun a b => a.conflictsWith b = false

theorem Compatible.perm (h : Compatible source fs) (hperm : fs.Perm gs) :
    Compatible source gs := by
  have hedits : (proposedEdits fs).Perm (proposedEdits gs) := hperm.flatMap_right _
  exact ⟨fun e he => h.1 e (hedits.mem_iff.2 he),
    hedits.pairwise h.2 fun hab => (Edit.conflictsWith_comm _ _).trans hab⟩

theorem edits_proposals (fs : List Finding) :
    (fs.flatMap fun f => f.edits.map (f.rule, ·)).map (·.2) = proposedEdits fs := by
  simp only [List.map_flatMap, List.map_map, Function.comp_def, List.map_id', proposedEdits]

/-- A script of findings is made of compatible edits, and holds them. -/
theorem of_compose_eq_ok (h : compose fs source = .ok script) :
    Compatible source fs ∧ script.Holds fs := by
  obtain ⟨⟨hfits, hconflicts⟩, rfl⟩ := ofProposals_eq_ok_iff.1 h
  have hordered := pairwise_distinct (fs.flatMap fun f => f.edits.map (f.rule, ·))
  have hagree := pairwise_not_conflictsWith_distinct hconflicts
  have hapart := pairwise_stop_le_distinct hconflicts
  rw [edits_proposals] at hfits hconflicts
  refine ⟨⟨hfits, hconflicts⟩, fun e => by rw [mem_distinct, edits_proposals], hordered, hapart,
    (hordered.and hagree).imp fun {a b} hab hempty hempty' hplace => ?_, fun name => ?_⟩
  · obtain ⟨⟨-, hnot⟩, hagree⟩ := hab
    rw [Edit.conflictsWith, if_neg hnot, if_pos (by rw [hempty, hempty']; rfl), hplace] at hagree
    exact absurd hagree (by simp)
  · exact mem_importsOf.trans (by simp)

theorem exists_compose_eq_ok (h : Compatible source fs) :
    ∃ script, compose fs source = .ok script :=
  ⟨_, ofProposals_eq_ok_iff.2 ⟨by rwa [edits_proposals], rfl⟩⟩

/-- **Composing accepts exactly the compatible edits, in whatever order the
findings come.** There is a script when all preferred edits fit the source and
no two of them conflict, and then it holds them in order, and every order of the
findings makes the same one. -/
theorem exists_compose_eq_ok_iff_compatible (fs : List Finding) (source : String) :
    ((∃ script, compose fs source = .ok script) ↔ Compatible source fs) ∧
      ∀ script, compose fs source = .ok script →
        script.Holds fs ∧ ∀ gs, gs.Perm fs → compose gs source = .ok script := by
  refine ⟨⟨fun ⟨_, h⟩ => (of_compose_eq_ok h).1, exists_compose_eq_ok⟩, fun script h => ?_⟩
  obtain ⟨hcompatible, hholds⟩ := of_compose_eq_ok h
  refine ⟨hholds, fun gs hperm => ?_⟩
  obtain ⟨other, hother⟩ := exists_compose_eq_ok (hcompatible.perm hperm.symm)
  rw [hother, ((of_compose_eq_ok hother).2.perm hperm).eq hholds]

end EditScript

end Codemod
