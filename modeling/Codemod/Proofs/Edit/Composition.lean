import Codemod.Edit.Script
import Codemod.Proofs.Outcome
/-!
# Composing edits

Edits have a total order, and one that comes before another and does not
conflict with it has ended where the other begins
(`Edit.stop_le_of_not_conflictsWith`). A script holds the distinct edits that
were proposed, in that order (`EditScript.distinct`), and there is one when all
of them fit the source and no two conflict (`EditScript.ofProposals_eq_ok`).
-/

namespace Codemod

open Outcome

/-! ## Order and conflicts -/

namespace Span

variable {s t : Span}

theorem precedes_iff :
    s.precedes t = true ↔ s.start < t.start ∨ s.start = t.start ∧ s.stop < t.stop := by
  simp [precedes]

theorem precedes_or_eq_or_precedes (s t : Span) :
    s.precedes t = true ∨ s = t ∨ t.precedes s = true := by
  obtain ⟨start, stop⟩ := s
  obtain ⟨start', stop'⟩ := t
  simp only [precedes_iff, Span.mk.injEq]
  omega

end Span

namespace Edit

variable {a b c : Edit}

theorem le_iff :
    a.le b = true ↔ a.span.precedes b.span = true ∨
      a.span = b.span ∧ a.replacement ≤ b.replacement := by
  simp [le]

theorem le_total (a b : Edit) : a.le b = true ∨ b.le a = true := by
  rw [le_iff, le_iff]
  rcases Span.precedes_or_eq_or_precedes a.span b.span with hlt | heq | hgt
  · exact .inl (.inl hlt)
  · rcases String.le_total a.replacement b.replacement with hle | hle
    · exact .inl (.inr ⟨heq, hle⟩)
    · exact .inr (.inr ⟨heq.symm, hle⟩)
  · exact .inr (.inl hgt)

theorem le_trans (hab : a.le b = true) (hbc : b.le c = true) : a.le c = true := by
  rw [le_iff] at hab hbc ⊢
  rcases hab with hab | ⟨hab, hle⟩
  · rcases hbc with hbc | ⟨hbc, -⟩
    · rw [Span.precedes_iff] at hab hbc ⊢
      omega
    · exact .inl (hbc ▸ hab)
  · rcases hbc with hbc | ⟨hbc, hle'⟩
    · exact .inl (hab ▸ hbc)
    · exact .inr ⟨hab.trans hbc, String.le_trans hle hle'⟩

theorem le_antisymm (hab : a.le b = true) (hba : b.le a = true) : a = b := by
  obtain ⟨span, replacement⟩ := a
  obtain ⟨span', replacement'⟩ := b
  simp only [le_iff, Span.precedes_iff] at hab hba
  rcases hab with hlt | ⟨rfl, hle⟩
  · rcases hba with hgt | ⟨rfl, -⟩ <;> omega
  · rcases hba with hgt | ⟨-, hle'⟩
    · omega
    · exact congrArg (Edit.mk span) (String.le_antisymm hle hle')

theorem start_le_of_le (h : a.le b = true) : a.span.start ≤ b.span.start := by
  rcases le_iff.1 h with hlt | ⟨heq, -⟩
  · rw [Span.precedes_iff] at hlt
    omega
  · exact Nat.le_of_eq (congrArg Span.start heq)

theorem not_precedes_of_le (h : a.le b = true) : ¬ b.span.precedes a.span = true := by
  intro hgt
  rcases le_iff.1 h with hlt | ⟨heq, -⟩
  · rw [Span.precedes_iff] at hlt hgt
    omega
  · rw [heq, Span.precedes_iff] at hgt
    omega

/-- Conflicts are mutual. -/
theorem conflictsWith_comm (a b : Edit) : a.conflictsWith b = b.conflictsWith a := by
  unfold conflictsWith
  by_cases hsame : a = b
  · rw [if_pos hsame, if_pos hsame.symm]
  rw [if_neg hsame, if_neg (Ne.symm hsame), Bool.and_comm]
  -- Insertions are compared by place, all other edits by which starts first.
  split
  · exact BEq.comm
  rcases Span.precedes_or_eq_or_precedes a.span b.span with hlt | heq | hgt
  · have hnot : ¬ b.span.precedes a.span = true := by
      rw [Span.precedes_iff] at hlt ⊢
      omega
    rw [if_pos hlt, if_neg hnot]
  · rw [heq]
  · have hnot : ¬ a.span.precedes b.span = true := by
      rw [Span.precedes_iff] at hgt ⊢
      omega
    rw [if_pos hgt, if_neg hnot]

@[simp] theorem conflictsWith_self (a : Edit) : a.conflictsWith a = false := by
  simp [conflictsWith]

/-- **What comes first ends first**: an edit that does not conflict with a later
one ends where that begins, or before. -/
theorem stop_le_of_not_conflictsWith (hne : a ≠ b) (hle : a.le b = true)
    (h : a.conflictsWith b = false) : a.span.stop ≤ b.span.start := by
  unfold conflictsWith at h
  rw [if_neg hne] at h
  split at h
  · rename_i hempty
    simp only [Span.isEmpty, Bool.and_eq_true, decide_eq_true_eq] at hempty
    rw [beq_eq_false_iff_ne] at h
    rcases le_iff.1 hle with hlt | ⟨heq, -⟩
    · rw [Span.precedes_iff] at hlt
      omega
    · exact absurd (congrArg Span.start heq) h
  · rw [if_neg (not_precedes_of_le hle), decide_eq_false_iff_not] at h
    omega

/-- Edits conflict when one replaces part of what the other replaces, and not
all of it. -/
theorem conflictsWith_of_encloses (hstart : a.span.start ≤ b.span.start)
    (hstop : b.span.stop ≤ a.span.stop) (hbytes : b.span.start < b.span.stop)
    (hlonger : b.span.length < a.span.length) : a.conflictsWith b = true := by
  unfold Span.length at hlonger
  have hne : a ≠ b := fun heq => by
    rw [heq] at hlonger
    omega
  have hempty : ¬ (a.span.isEmpty && b.span.isEmpty) = true := by
    simp [Span.isEmpty]
    omega
  unfold conflictsWith
  rw [if_neg hne, if_neg hempty]
  split <;> simp <;> omega

/-- So do different edits of one stretch of text. -/
theorem eq_of_span_eq (hspan : a.span = b.span) (hbytes : b.span.start < b.span.stop)
    (h : a.conflictsWith b = false) : a = b := by
  unfold conflictsWith at h
  by_cases hsame : a = b
  · exact hsame
  have hempty : ¬ (b.span.isEmpty && b.span.isEmpty) = true := by
    simp [Span.isEmpty]
    omega
  rw [if_neg hsame, hspan, if_neg hempty, ite_self, decide_eq_false_iff_not] at h
  exact absurd hbytes h

end Edit

/-! ## The edits of a script -/

namespace EditScript

variable {source : String} {ps : List Proposal} {imports : NameSet}

theorem mem_after {edit e : Edit} :
    e = edit ∨ e ∈ (collapse.after edit ps).map (·.2) ↔ e = edit ∨ e ∈ ps.map (·.2) := by
  induction ps generalizing edit with
  | nil => rfl
  | cons p ps ih =>
    rw [collapse.after]
    split
    · rename_i hsame
      rw [ih, List.map_cons, List.mem_cons, hsame, or_self_left]
    · rw [List.map_cons, List.mem_cons, List.map_cons, List.mem_cons, ih]

/-- No edit is left out. -/
theorem mem_collapse {e : Edit} : e ∈ (collapse ps).map (·.2) ↔ e ∈ ps.map (·.2) := by
  cases ps with
  | nil => rfl
  | cons p ps =>
    rw [collapse, List.map_cons, List.mem_cons, List.map_cons, List.mem_cons, mem_after]

/-- An edit comes before another one. -/
def Precedes (a b : Edit) : Prop := a.le b = true ∧ a ≠ b

theorem pairwise_after {edit : Edit} (h : (edit :: ps.map (·.2)).Pairwise fun a b => a.le b) :
    (edit :: (collapse.after edit ps).map (·.2)).Pairwise Precedes := by
  induction ps generalizing edit with
  | nil => exact List.pairwise_singleton _ _
  | cons p ps ih =>
    rw [List.map_cons] at h
    obtain ⟨hfirst, hrest⟩ := List.pairwise_cons.1 h
    rw [collapse.after]
    split
    · rename_i hsame
      exact ih (hsame ▸ hrest)
    · rename_i hother
      have hp : edit.le p.2 = true := hfirst _ List.mem_cons_self
      refine List.pairwise_cons.2 ⟨fun e he => ⟨?_, ?_⟩, ih hrest⟩
      · rw [List.map_cons, List.mem_cons, mem_after] at he
        exact hfirst e (List.mem_cons.2 he)
      · -- What equals the first comes after the second, and so before it as well.
        rintro rfl
        rw [List.map_cons, List.mem_cons, mem_after] at he
        rcases he with heq | he
        · exact hother heq.symm
        · exact hother (Edit.le_antisymm ((List.pairwise_cons.1 hrest).1 _ he) hp)

theorem pairwise_collapse (h : (ps.map (·.2)).Pairwise fun a b => a.le b) :
    ((collapse ps).map (·.2)).Pairwise Precedes := by
  cases ps with
  | nil => exact .nil
  | cons p ps => exact pairwise_after h

/-- The distinct edits among proposals, in their order. -/
def distinct (ps : List Proposal) : List Edit :=
  (collapse (ps.mergeSort fun p q => p.2.le q.2)).map (·.2)

theorem mem_distinct {e : Edit} : e ∈ distinct ps ↔ e ∈ ps.map (·.2) := by
  rw [distinct, mem_collapse, List.mem_map, List.mem_map]
  simp only [List.mem_mergeSort]

theorem pairwise_distinct (ps : List Proposal) : (distinct ps).Pairwise Precedes := by
  have htrans (a b c : Proposal) (hab : a.2.le b.2 = true) (hbc : b.2.le c.2 = true) :
      a.2.le c.2 = true := Edit.le_trans hab hbc
  have htotal (a b : Proposal) : (a.2.le b.2 || b.2.le a.2) = true := by
    rw [Bool.or_eq_true]
    exact Edit.le_total _ _
  exact pairwise_collapse (List.pairwise_map.2 (List.pairwise_mergeSort htrans htotal ps))

theorem firstConflict?_eq_none (h : ∀ p ∈ ps, ∀ q ∈ ps, p.2.conflictsWith q.2 = false) :
    firstConflict? ps = none := by
  induction ps with
  | nil => rfl
  | cons p ps ih =>
    cases ps with
    | nil => rfl
    | cons q ps =>
      have hpq := h p List.mem_cons_self q (List.mem_cons_of_mem _ List.mem_cons_self)
      rw [firstConflict?, if_neg (Bool.eq_false_iff.1 hpq)]
      exact ih fun p hp q hq => h p (List.mem_cons_of_mem _ hp) q (List.mem_cons_of_mem _ hq)

/-- Proposals that do not conflict do not in the order of the text. -/
theorem firstConflict?_sorted_eq_none
    (hconflicts : ∀ p ∈ ps, ∀ q ∈ ps, p.2.conflictsWith q.2 = false) :
    firstConflict? (collapse (ps.mergeSort fun p q => p.2.le q.2)) = none := by
  -- What is left of the proposals is among the proposals.
  have hproposed : ∀ p ∈ collapse (ps.mergeSort fun p q => p.2.le q.2),
      ∃ q ∈ ps, q.2 = p.2 := by
    intro p hp
    have hedit : p.2 ∈ distinct ps := List.mem_map_of_mem hp
    exact List.mem_map.1 (mem_distinct.1 hedit)
  refine firstConflict?_eq_none fun p hp q hq => ?_
  obtain ⟨p', hp', hsame⟩ := hproposed p hp
  obtain ⟨q', hq', hsame'⟩ := hproposed q hq
  rw [← hsame, ← hsame']
  exact hconflicts p' hp' q' hq'

/-- **Edits that fit and do not conflict make a script** of the distinct edits
among them. -/
theorem ofProposals_eq_ok (hbounds : ∀ p ∈ ps, checkBounds source p = .ok ())
    (hconflicts : ∀ p ∈ ps, ∀ q ∈ ps, p.2.conflictsWith q.2 = false) :
    ofProposals source ps imports = .ok ⟨distinct ps, imports⟩ := by
  unfold ofProposals
  refine bind_eq_ok_iff.2 ⟨⟨⟩, forM_eq_ok_iff.2 hbounds, ?_⟩
  dsimp only
  rw [firstConflict?_sorted_eq_none hconflicts]
  rfl

/-- Nor are edits that do not conflict ever refused because they overlap. -/
theorem ofProposals_ne_overlap (hconflicts : ∀ p ∈ ps, ∀ q ∈ ps, p.2.conflictsWith q.2 = false)
    (rule rule' : String) (span span' : Span) :
    ofProposals source ps imports ≠ .error (.overlap rule span rule' span') := by
  intro h
  rcases bind_eq_error_iff.1 h with h | ⟨⟨⟩, -, h⟩
  · obtain ⟨p, -, hp⟩ := exists_of_forM_eq_error h
    unfold checkBounds at hp
    dsimp only at hp
    split at hp
    · simp at hp
    · split at hp <;> simp at hp
  · dsimp only at h
    rw [firstConflict?_sorted_eq_none hconflicts] at h
    exact pure_ne_error h

/-- An edit of a stretch of the source fits it. -/
theorem checkBounds_eq_ok {p : Proposal} {text : String}
    (h : p.2.span.slice? source = some text) : checkBounds source p = .ok () := by
  obtain ⟨l, r, hsource, hstart, hstop⟩ := Text.slice?_eq_some_iff.1 h
  have hlength := congrArg Text.byteCount hsource
  rw [Text.byteCount_append, Text.byteCount_append] at hlength
  have hsplits : Text.Splits source p.2.span.start ∧ Text.Splits source p.2.span.stop := by
    refine ⟨Text.splits_iff.2 ⟨l, text ++ r, by rw [hsource, String.append_assoc], hstart⟩,
      Text.splits_iff.2 ⟨l ++ text, r, hsource, ?_⟩⟩
    rw [hstop, Text.byteCount_append]
  unfold checkBounds
  dsimp only
  rw [if_neg (by omega), if_pos hsplits]

/-- **Ordered edits are determined by which they are.** -/
theorem distinct_eq {es : List Edit} (hmem : ∀ e, e ∈ ps.map (·.2) ↔ e ∈ es)
    (hordered : es.Pairwise Precedes) : distinct ps = es := by
  have hnodup : es.Nodup := hordered.imp And.right
  have hnodup' : (distinct ps).Nodup := (pairwise_distinct ps).imp And.right
  have hperm : (distinct ps).Perm es :=
    (List.perm_ext_iff_of_nodup hnodup' hnodup).2 fun e => mem_distinct.trans (hmem e)
  exact hperm.eq_of_pairwise (fun a b _ _ hab hba => Edit.le_antisymm hab.1 hba.1)
    (pairwise_distinct ps) hordered

end EditScript

end Codemod
