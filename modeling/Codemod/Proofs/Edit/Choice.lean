import Codemod.Proofs.Edit.Selection
import Mathlib.Data.List.Pairwise
import Mathlib.Data.List.Perm.Subperm
/-!
# Which findings are selected

One finding can occur twice in a list, so what is selected are its occurrences:
findings with their places. The occurrences that are kept outrank what they
displace, and this and their order leave no freedom to the selection
(`Finding.IsChoice`). Equal ranks do not occur, because both sorts keep the order
of what they cannot tell apart (`pairwise_mergeSort_stable`). The selection of a
list is such a choice, to select again changes nothing, and the selected findings
never fail to make a script because their edits overlap
(`Finding.selectCompatible_isChoice`).
-/

namespace Codemod

/-! ## Stable sorts -/

section Stable

variable {α : Type*} {le : α → α → Bool} {R : α → α → Prop} {l : List α}

/-- The places of a list go up. -/
theorem pairwise_zipIdx (l : List α) : l.zipIdx.Pairwise fun p q => p.2 < q.2 := by
  have hplaces : (l.zipIdx.map Prod.snd).Pairwise (· < ·) := by
    rw [List.zipIdx_map_snd]
    exact List.pairwise_lt_range'
  exact List.pairwise_map.1 hplaces

/-- **A sort keeps the order of what it cannot tell apart.** -/
theorem pairwise_mergeSort_stable (htrans : ∀ a b c, le a b = true → le b c = true → le a c = true)
    (htotal : ∀ a b, (le a b || le b a) = true) (h : l.Pairwise R) :
    (l.mergeSort le).Pairwise fun a b => le a b = true ∧ (le b a = true → R a b) := by
  have hnodup : l.zipIdx.Nodup := (pairwise_zipIdx l).imp fun hlt heq =>
    Nat.ne_of_lt hlt (congrArg Prod.snd heq)
  have hnodup' := (List.mergeSort_perm l.zipIdx (List.zipIdxLE le)).nodup_iff.2 hnodup
  have hsorted := List.pairwise_mergeSort (List.zipIdxLE_trans htrans)
    (List.zipIdxLE_total htotal) l.zipIdx
  rw [← List.mergeSort_zipIdx, List.pairwise_map]
  refine (hsorted.and hnodup').imp_of_mem fun {p q} hp hq hpq => ?_
  have hle := hpq.1
  unfold List.zipIdxLE at hle
  split at hle
  · rename_i hfirst
    refine ⟨hfirst, fun htie => ?_⟩
    rw [if_pos htie, decide_eq_true_eq] at hle
    have hp' := List.mem_zipIdx_iff_getElem?.1 (List.mem_mergeSort.1 hp)
    have hq' := List.mem_zipIdx_iff_getElem?.1 (List.mem_mergeSort.1 hq)
    have hne : p.2 ≠ q.2 := fun hsame => by
      rw [hsame, hq', Option.some.injEq] at hp'
      exact hpq.2 (Prod.ext hp'.symm hsame)
    obtain ⟨hi, hpi⟩ := List.getElem?_eq_some_iff.1 hp'
    obtain ⟨hj, hqj⟩ := List.getElem?_eq_some_iff.1 hq'
    have hordered := List.pairwise_iff_getElem.1 h p.2 q.2 hi hj (Nat.lt_of_le_of_ne hle hne)
    rwa [hpi, hqj] at hordered
  · exact absurd hle Bool.false_ne_true

end Stable

/-! ## Occurrences -/

namespace Finding

/-- A finding with its place in a list. -/
abbrev Occurrence := Finding × Nat

namespace Occurrence

variable {p q r : Occurrence}

/-- The occurrence is considered before the other: its span is longer, or as long
and starts earlier, or it starts where the other does and stands before it. -/
def Outranks (p q : Occurrence) : Prop :=
  q.1.span.length < p.1.span.length ∨ q.1.span.length = p.1.span.length ∧
    (p.1.span.start < q.1.span.start ∨ p.1.span.start = q.1.span.start ∧ p.2 < q.2)

/-- The occurrence comes first in the text, or has the same span and stands
first in the list. -/
def Foregoes (p q : Occurrence) : Prop :=
  p.1.span.precedes q.1.span = true ∨ p.1.span = q.1.span ∧ p.2 < q.2

theorem outranks_iff : p.Outranks q ↔
    p.1.considered q.1 = true ∧ (q.1.considered p.1 = true → p.2 < q.2) := by
  unfold Outranks
  rw [considered_iff, considered_iff]
  omega

/-- No occurrence outranks one that outranks it. -/
theorem Outranks.asymm (h : p.Outranks q) : ¬ q.Outranks p := by
  unfold Outranks at *
  omega

/-- Nor does one come before itself. -/
theorem Foregoes.asymm (h : p.Foregoes q) : ¬ q.Foregoes p := by
  unfold Foregoes at *
  rw [Span.precedes_iff] at *
  rintro (hafter | ⟨hsame, hafter⟩)
  · rcases h with h | ⟨hsame, -⟩
    · omega
    · rw [hsame] at hafter
      omega
  · rw [hsame] at h
    omega

/-- **Of occurrences with one span the one that stands first outranks the
others.** -/
theorem Outranks.foregoes (h : p.Outranks q) (hspan : q.1.span.precedes p.1.span = false)
    (hspan' : p.1.span.precedes q.1.span = false) : p.Foregoes q := by
  have hsame : p.1.span = q.1.span := by
    rcases Span.precedes_or_eq_or_precedes p.1.span q.1.span with hlt | heq | hgt
    · exact absurd hlt (Bool.eq_false_iff.1 hspan')
    · exact heq
    · exact absurd hgt (Bool.eq_false_iff.1 hspan)
  refine .inr ⟨hsame, ?_⟩
  unfold Outranks at h
  rw [hsame] at h
  omega

end Occurrence

/-! ## Choosing -/

open Occurrence

variable {fs : List Finding} {kept ps chosen : List Occurrence}

/-- **What is kept** of occurrences that come after those kept before, the latest
first. Every one that is not kept clashes with one that is and outranks it. -/
structure Keeps (kept ps chosen : List Occurrence) : Prop where
  findings_eq : chosen.map (·.1) = keep (kept.map (·.1)) (ps.map (·.1))
  ranked : chosen.reverse.Pairwise Outranks
  mem_of_mem_kept : ∀ p ∈ kept, p ∈ chosen
  mem_or_mem : ∀ p ∈ chosen, p ∈ kept ∨ p ∈ ps
  outranked : ∀ p ∈ ps, p ∉ chosen →
    ∃ q ∈ chosen, q.Outranks p ∧ p.1.clashesWith q.1 = true

/-- The invariant of the loop is that what was kept outranks what is still to be
considered. -/
theorem exists_keeps (hranked : (kept.reverse ++ ps).Pairwise Outranks) :
    ∃ chosen, Keeps kept ps chosen := by
  induction ps generalizing kept with
  | nil =>
    rw [List.append_nil] at hranked
    exact ⟨kept, rfl, hranked, fun _ hp => hp, fun _ hp => .inl hp,
      fun _ hp => absurd hp List.not_mem_nil⟩
  | cons p ps ih =>
    have hany : (kept.map (·.1)).any p.1.clashesWith = kept.any (p.1.clashesWith ·.1) :=
      List.any_map
    by_cases hclash : kept.any (p.1.clashesWith ·.1) = true
    · have hrest : (kept.reverse ++ ps).Pairwise Outranks :=
        hranked.sublist ((List.sublist_cons_self p ps).append_left _)
      obtain ⟨chosen, h⟩ := ih hrest
      obtain ⟨q, hq, hpq⟩ := List.any_eq_true.1 hclash
      have houtranks : q.Outranks p := (List.pairwise_append.1 hranked).2.2 q
        (List.mem_reverse.2 hq) p List.mem_cons_self
      refine ⟨chosen, ?_, h.ranked, h.mem_of_mem_kept, fun r hr => ?_, fun r hr hnot => ?_⟩
      · rw [List.map_cons, keep, hany, if_pos hclash, h.findings_eq]
      · exact (h.mem_or_mem r hr).imp_right (List.mem_cons_of_mem _)
      · rcases List.mem_cons.1 hr with rfl | hr
        · exact ⟨q, h.mem_of_mem_kept q hq, houtranks, hpq⟩
        · exact h.outranked r hr hnot
    · have hrest : ((p :: kept).reverse ++ ps).Pairwise Outranks := by
        rwa [List.reverse_cons, List.append_assoc, List.singleton_append]
      obtain ⟨chosen, h⟩ := ih hrest
      have hp : p ∈ chosen := h.mem_of_mem_kept p List.mem_cons_self
      refine ⟨chosen, ?_, h.ranked, fun r hr => ?_, fun r hr => ?_, fun r hr hnot => ?_⟩
      · rw [List.map_cons, keep, hany, if_neg hclash, h.findings_eq, List.map_cons]
      · exact h.mem_of_mem_kept r (List.mem_cons_of_mem _ hr)
      · rcases h.mem_or_mem r hr with hkept | hlater
        · rcases List.mem_cons.1 hkept with rfl | hkept
          · exact .inr List.mem_cons_self
          · exact .inl hkept
        · exact .inr (List.mem_cons_of_mem _ hlater)
      · rcases List.mem_cons.1 hr with rfl | hr
        · exact absurd hp hnot
        · exact h.outranked r hr hnot

/-- **What a choice among the findings of a list is.** Every occurrence that is
not chosen clashes with a chosen one that outranks it; no two chosen ones clash;
and they are in the order of the text. -/
structure IsChoice (fs : List Finding) (chosen : List Occurrence) : Prop where
  mem_zipIdx : ∀ p ∈ chosen, p ∈ fs.zipIdx
  ordered : chosen.Pairwise Foregoes
  agree : chosen.Pairwise fun p q => p.1.clashesWith q.1 = false
  outranked : ∀ p ∈ fs.zipIdx, p ∉ chosen →
    ∃ q ∈ chosen, q.Outranks p ∧ p.1.clashesWith q.1 = true

/-- Occurrences are considered in the order of their ranks. -/
theorem pairwise_outranks (fs : List Finding) :
    (fs.zipIdx.mergeSort fun p q => p.1.considered q.1).Pairwise Outranks := by
  refine (pairwise_mergeSort_stable (fun p q r hpq hqr => ?_) (fun p q => ?_)
    (pairwise_zipIdx fs)).imp outranks_iff.2
  · rw [considered_iff] at hpq hqr ⊢
    omega
  · rw [Bool.or_eq_true, considered_iff, considered_iff]
    omega

/-- Ranked occurrences are put in the order of the text. -/
theorem pairwise_foregoes (h : ps.Pairwise Outranks) :
    (ps.mergeSort fun p q => !q.1.span.precedes p.1.span).Pairwise Foregoes := by
  refine (pairwise_mergeSort_stable (fun p q r hpq hqr => ?_) (fun p q => ?_) h).imp
    fun {p q} hpq => ?_
  · rw [Bool.not_eq_true', ← Bool.not_eq_true, Span.precedes_iff] at hpq hqr ⊢
    omega
  · rw [Bool.or_eq_true, Bool.not_eq_true', Bool.not_eq_true', ← Bool.not_eq_true,
      ← Bool.not_eq_true, Span.precedes_iff, Span.precedes_iff]
    omega
  · obtain ⟨hle, htie⟩ := hpq
    rw [Bool.not_eq_true'] at hle htie
    by_cases hlt : p.1.span.precedes q.1.span = true
    · exact .inl hlt
    · rw [Bool.not_eq_true] at hlt
      exact (htie hlt).foregoes hle hlt

/-- **The selected findings are those of a choice.** -/
theorem exists_isChoice (fs : List Finding) :
    ∃ chosen, IsChoice fs chosen ∧ chosen.map (·.1) = selectCompatible fs := by
  obtain ⟨chosen, h⟩ : ∃ chosen, Keeps [] (fs.zipIdx.mergeSort fun p q =>
      p.1.considered q.1) chosen := exists_keeps (pairwise_outranks fs)
  have hsorted : (fs.zipIdx.mergeSort fun p q => p.1.considered q.1).map (·.1) =
      fs.mergeSort considered := by
    rw [List.map_mergeSort (s := considered) fun _ _ _ _ => rfl, List.zipIdx_map_fst]
  have hfindings := h.findings_eq
  rw [hsorted, List.map_nil] at hfindings
  have hperm := List.mergeSort_perm chosen.reverse fun p q => !q.1.span.precedes p.1.span
  have hmem : ∀ p, p ∈ chosen.reverse.mergeSort (fun p q => !q.1.span.precedes p.1.span) ↔
      p ∈ chosen := fun p => hperm.mem_iff.trans List.mem_reverse
  have hmap : (chosen.reverse.mergeSort fun p q => !q.1.span.precedes p.1.span).map (·.1) =
      selectCompatible fs := by
    rw [List.map_mergeSort (s := fun f g : Finding => !g.span.precedes f.span) fun _ _ _ _ => rfl,
      List.map_reverse, hfindings]
    rfl
  refine ⟨_, ⟨fun p hp => ?_, pairwise_foregoes h.ranked, ?_, fun p hp hnot => ?_⟩, hmap⟩
  · have hchosen := h.mem_or_mem p ((hmem p).1 hp)
    rcases hchosen with hkept | hlater
    · exact absurd hkept List.not_mem_nil
    · exact List.mem_mergeSort.1 hlater
  · have hagree := pairwise_selectCompatible fs
    rwa [← hmap, List.pairwise_map] at hagree
  · obtain ⟨q, hq, hrank, hclash⟩ := h.outranked p (List.mem_mergeSort.2 hp)
      fun hin => hnot ((hmem p).2 hin)
    exact ⟨q, (hmem q).2 hq, hrank, hclash⟩

/-! ## One choice only -/

namespace IsChoice

variable {other : List Occurrence} {p q : Occurrence}

/-- No occurrence is chosen twice. -/
theorem nodup (h : IsChoice fs chosen) : chosen.Nodup :=
  h.ordered.imp fun hpq heq => (heq ▸ hpq).asymm (heq ▸ hpq)

/-- Chosen occurrences do not clash, whichever comes first. -/
theorem not_clashesWith (h : IsChoice fs chosen) (hp : p ∈ chosen) (hq : q ∈ chosen)
    (hne : p ≠ q) : p.1.clashesWith q.1 = false := by
  have hsymm : Std.Symm fun p q : Occurrence => p.1.clashesWith q.1 = false :=
    ⟨fun _ _ => clashesWith_comm⟩
  exact h.agree.forall hp hq hne

/-- What one choice has another has, if they agree on what outranks it. -/
theorem mem_of_mem (h : IsChoice fs chosen) (h' : IsChoice fs other) (hp : p ∈ chosen)
    (hhigher : ∀ q : Occurrence, q ∈ fs.zipIdx → q.Outranks p → q ∈ other → q ∈ chosen) :
    p ∈ other := by
  by_contra hnot
  obtain ⟨q, hq, hrank, hclash⟩ := h'.outranked p (h.mem_zipIdx p hp) hnot
  have hchosen : q ∈ chosen := hhigher q (h'.mem_zipIdx q hq) hrank hq
  have hne : p ≠ q := fun heq => (heq ▸ hrank).asymm (heq ▸ hrank)
  rw [h.not_clashesWith hp hchosen hne] at hclash
  exact Bool.noConfusion hclash

/-- **There is only one choice**: whether an occurrence is in it is settled by
those that outrank it. -/
theorem eq (h : IsChoice fs chosen) (h' : IsChoice fs other) : chosen = other := by
  let ranked := fs.zipIdx.mergeSort fun p q => p.1.considered q.1
  have hranked : ranked.Pairwise Outranks := pairwise_outranks fs
  have hmem : ∀ p, p ∈ ranked ↔ p ∈ fs.zipIdx := fun _ => List.mem_mergeSort
  have hsettled : ∀ i (hi : i < ranked.length), ranked[i] ∈ chosen ↔ ranked[i] ∈ other := by
    intro i
    induction i using Nat.strongRecOn with
    | ind i ih =>
      intro hi
      have hhigher : ∀ q : Occurrence, q ∈ fs.zipIdx → q.Outranks ranked[i] →
          (q ∈ chosen ↔ q ∈ other) := by
        intro q hq hrank
        obtain ⟨j, hj, rfl⟩ := List.getElem_of_mem ((hmem q).2 hq)
        have hlt : j < i := by
          by_contra hnot
          rcases Nat.lt_or_eq_of_le (Nat.le_of_not_lt hnot) with hgt | rfl
          · exact hrank.asymm (List.pairwise_iff_getElem.1 hranked i j hi hj hgt)
          · exact hrank.asymm hrank
        exact ih j hlt hj
      exact ⟨fun hp => h.mem_of_mem h' hp fun q hq hrank => (hhigher q hq hrank).2,
        fun hp => h'.mem_of_mem h hp fun q hq hrank => (hhigher q hq hrank).1⟩
  have hsame : ∀ p, p ∈ chosen ↔ p ∈ other := by
    intro p
    by_cases hp : p ∈ fs.zipIdx
    · obtain ⟨i, hi, rfl⟩ := List.getElem_of_mem ((hmem p).2 hp)
      exact hsettled i hi
    · exact iff_of_false (fun hin => hp (h.mem_zipIdx p hin)) fun hin => hp (h'.mem_zipIdx p hin)
  have hperm : chosen.Perm other := (List.perm_ext_iff_of_nodup h.nodup h'.nodup).2 hsame
  exact hperm.eq_of_pairwise (fun p q _ _ hpq hqp => absurd hqp hpq.asymm) h.ordered h'.ordered

end IsChoice

/-- Findings in the order of the text that do not clash are all chosen. -/
theorem isChoice_zipIdx (hordered : fs.Pairwise fun f g => g.span.precedes f.span = false)
    (hagree : fs.Pairwise fun f g => f.clashesWith g = false) : IsChoice fs fs.zipIdx := by
  rw [← List.zipIdx_map_fst 0 fs, List.pairwise_map] at hordered hagree
  refine ⟨fun _ hp => hp, ?_, hagree, fun p hp hnot => absurd hp hnot⟩
  refine (hordered.and (pairwise_zipIdx fs)).imp fun {p q} hpq => ?_
  rcases Span.precedes_or_eq_or_precedes p.1.span q.1.span with hlt | heq | hgt
  · exact .inl hlt
  · exact .inr ⟨heq, hpq.2⟩
  · exact absurd hgt (Bool.eq_false_iff.1 hpq.1)

/-- **To select again changes nothing.** -/
theorem selectCompatible_selectCompatible (fs : List Finding) :
    selectCompatible (selectCompatible fs) = selectCompatible fs := by
  obtain ⟨chosen, h, hmap⟩ := exists_isChoice (selectCompatible fs)
  have hall := isChoice_zipIdx (ordered_selectCompatible fs) (pairwise_selectCompatible fs)
  rw [← hmap, h.eq hall, List.zipIdx_map_fst]

end Finding

/-! ## Scripts of selected findings -/

namespace EditScript

open Finding

variable {fs : List Finding} {source : String}

/-- The edits of selected findings do not overlap where each agrees with
itself. -/
theorem compose_selectCompatible_ne_overlap
    (hself : ∀ f ∈ selectCompatible fs, f.clashesWith f = false)
    (rule rule' : String) (span span' : Span) :
    compose (selectCompatible fs) source ≠ .error (.overlap rule span rule' span') := by
  refine ofProposals_ne_overlap (fun p hp q hq => ?_) rule rule' span span'
  obtain ⟨f, hf, he⟩ := mem_proposals_iff.1 (List.mem_map_of_mem hp)
  obtain ⟨g, hg, he'⟩ := mem_proposals_iff.1 (List.mem_map_of_mem hq)
  have hclash := not_clashesWith_of_selected hself hf hg
  exact clashesWith_eq_false_iff.1 hclash _ he _ he'

end EditScript

namespace Finding

/-- **The selection is conflict-free, dominating and stable.** Its findings are
those of the one choice there is among the occurrences, which is a part of them.
To select again changes nothing. Composing what is selected is never refused for
overlapping edits, if each selected finding agrees with itself. -/
theorem selectCompatible_isChoice (fs : List Finding) :
    (∃ chosen, IsChoice fs chosen ∧ chosen.map (·.1) = selectCompatible fs ∧
      ∀ other, IsChoice fs other → other = chosen) ∧
    (selectCompatible fs).Subperm fs ∧
    selectCompatible (selectCompatible fs) = selectCompatible fs ∧
    ∀ source, (∀ f ∈ selectCompatible fs, f.clashesWith f = false) →
      ∀ rule rule' span span', EditScript.compose (selectCompatible fs) source ≠
        .error (.overlap rule span rule' span') := by
  obtain ⟨chosen, h, hmap⟩ := exists_isChoice fs
  have hpart : (selectCompatible fs).Subperm fs := by
    have hsub : chosen.Subperm fs.zipIdx := List.subperm_of_subset h.nodup h.mem_zipIdx
    obtain ⟨part, hperm, hpart⟩ := hsub
    refine ⟨part.map (·.1), ?_, ?_⟩
    · rw [← hmap]
      exact hperm.map _
    · have hpart' := hpart.map (·.1)
      rwa [List.zipIdx_map_fst] at hpart'
  exact ⟨⟨chosen, h, hmap, fun _ hother => hother.eq h⟩, hpart,
    selectCompatible_selectCompatible fs,
    fun _ hself => EditScript.compose_selectCompatible_ne_overlap hself⟩

/-- A finding within another is displaced by it, wherever it stands. -/
def nestedFindings : List Finding :=
  [⟨"argument", ⟨2, 3⟩, "Ident", .empty, [.ofEdits [⟨⟨2, 3⟩, "b"⟩]]⟩,
    ⟨"call", ⟨0, 4⟩, "Call", .empty, [.ofEdits [⟨⟨0, 4⟩, "g()"⟩]]⟩]

theorem selectCompatible_nestedFindings :
    (∃ chosen, IsChoice nestedFindings chosen ∧
      chosen.map (·.1) = selectCompatible nestedFindings) ∧
    ∀ rule rule' span span', EditScript.compose (selectCompatible nestedFindings) "f(a)" ≠
      .error (.overlap rule span rule' span') := by
  have hself : ∀ f ∈ nestedFindings, f.clashesWith f = false := by decide
  obtain ⟨⟨chosen, h, hmap, -⟩, -, -, hcompose⟩ := selectCompatible_isChoice nestedFindings
  exact ⟨⟨chosen, h, hmap⟩,
    hcompose "f(a)" fun f hf => hself f (mem_of_mem_selectCompatible hf)⟩

end Finding

end Codemod
