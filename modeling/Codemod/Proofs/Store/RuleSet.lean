import Codemod.Proofs.Dict
import Codemod.Proofs.Outcome
import Codemod.Store.Persist
import Mathlib.Data.List.Basic
/-!
# Rule sets and their artifacts

A rule set is known by its artifacts, which are added to it one after another
(`RuleSet.addAll_eq_ok`). Since each must have a new name, no two artifacts of
a set that was built have the same (`RuleSet.Built.nodup_names`), and so none
of them is written to the file of another.
-/

namespace Codemod

namespace Artifact

/-- The rule, if the artifact is one. -/
def rule? : Artifact → Option Rule
  | .rule r => some r
  | .migration _ => none

/-- The migration pair, if the artifact is one. -/
def migration? : Artifact → Option MigrationPair
  | .rule _ => none
  | .migration p => some p

end Artifact

namespace Suffixes

/-- Files of the same name are of artifacts of the same name. -/
theorem name_eq_of_fileName_eq {a b : Artifact} (h : standard.fileName a = standard.fileName b) :
    a.name = b.name := by
  have hsuffix (s t : String) : s ++ ".rule" ≠ t ++ ".migration" := fun h => by
    have hlast := congrArg (·.toList.getLast?) h
    simp at hlast
  cases a <;> cases b
  · exact (String.append_left_inj _).1 h
  · exact absurd h (hsuffix _ _)
  · exact absurd h.symm (hsuffix _ _)
  · exact (String.append_left_inj _).1 h

end Suffixes

namespace RuleSet

variable {s s' : RuleSet} {a : Artifact}

/-! ## Artifacts -/

theorem names_eq_map (s : RuleSet) : s.names = s.artifacts.map Artifact.name := by
  rw [names, artifacts, List.map_append, List.map_map, List.map_map]
  rfl

theorem filterMap_rule?_artifacts (s : RuleSet) :
    s.artifacts.filterMap Artifact.rule? = s.rules := by
  rw [artifacts, List.filterMap_append, List.filterMap_map, List.filterMap_map,
    show Artifact.rule? ∘ Artifact.rule = some from rfl,
    show Artifact.rule? ∘ Artifact.migration = fun _ => none from rfl]
  simp

theorem filterMap_migration?_artifacts (s : RuleSet) :
    s.artifacts.filterMap Artifact.migration? = s.migrations := by
  rw [artifacts, List.filterMap_append, List.filterMap_map, List.filterMap_map,
    show Artifact.migration? ∘ Artifact.rule = fun _ => none from rfl,
    show Artifact.migration? ∘ Artifact.migration = some from rfl]
  simp

/-- A tree whose pairs and rules are in order declares the rules that are no
direction of a pair, and then the pairs. -/
theorem declared_eq_ok_iff {rejectComments : Bool} {root : Node} {artifacts : List Artifact} :
    declared rejectComments root = .ok artifacts ↔
      ∃ pairs rules, root.declaredPairs rejectComments = .ok pairs ∧
        root.declaredRules rejectComments = .ok rules ∧
        (rules.filter fun r => !pairs.any (isGroupOf r)).map .rule ++ pairs.map .migration =
          artifacts := by
  simp only [declared, Outcome.bind_eq_ok_iff, Outcome.mapError_eq_ok_iff, Outcome.pure_eq_ok_iff,
    exists_and_left]

/-! ## Adding artifacts -/

/-- An artifact is added if its name is new. -/
theorem add_eq_ok_iff : s.add a = .ok s' ↔ a.name ∉ s.names ∧
    s' = ⟨s.rules ++ a.rule?.toList, s.migrations ++ a.migration?.toList⟩ := by
  unfold add
  split_ifs with hknown
  · simp [List.contains_iff_mem.1 hknown]
  · have hnew : a.name ∉ s.names := fun h => hknown (List.contains_iff_mem.2 h)
    cases a <;> simp [hnew, Artifact.rule?, Artifact.migration?, eq_comm]

theorem names_of_add (h : s.add a = .ok s') : s'.names.Perm (a.name :: s.names) := by
  obtain ⟨-, rfl⟩ := add_eq_ok_iff.1 h
  cases a with
  | rule r =>
    simp only [names, Artifact.rule?, Artifact.migration?, Option.toList, List.append_nil,
      List.map_append, List.append_assoc]
    exact List.perm_middle
  | migration p =>
    simp only [names, Artifact.rule?, Artifact.migration?, Option.toList, List.append_nil,
      List.map_append, ← List.append_assoc]
    exact List.perm_append_singleton _ _

theorem nodup_names_of_add (hs : s.names.Nodup) (h : s.add a = .ok s') : s'.names.Nodup :=
  (names_of_add h).nodup_iff.2 (List.nodup_cons.2 ⟨(add_eq_ok_iff.1 h).1, hs⟩)

theorem nodup_names_of_addAll {artifacts : List Artifact} (hs : s.names.Nodup)
    (h : s.addAll artifacts = .ok s') : s'.names.Nodup := by
  induction artifacts generalizing s with
  | nil =>
    obtain rfl := Except.ok.inj h
    exact hs
  | cons a rest ih =>
    rw [addAll, List.foldlM_cons, Outcome.bind_eq_ok_iff] at h
    obtain ⟨next, hadd, hrest⟩ := h
    exact ih (nodup_names_of_add hs hadd) hrest

/-- **Artifacts whose names are new are added in their order.** -/
theorem addAll_eq_ok {artifacts : List Artifact}
    (h : (s.names ++ artifacts.map Artifact.name).Nodup) :
    s.addAll artifacts = .ok
      ⟨s.rules ++ artifacts.filterMap Artifact.rule?,
        s.migrations ++ artifacts.filterMap Artifact.migration?⟩ := by
  induction artifacts generalizing s with
  | nil => simp [addAll, pure, Except.pure]
  | cons a rest ih =>
    have hnew : a.name ∉ s.names := fun hmem =>
      (List.nodup_append.1 h).2.2 _ hmem _ List.mem_cons_self rfl
    have hadd := add_eq_ok_iff.2 ⟨hnew, rfl⟩
    rw [addAll, List.foldlM_cons, Outcome.bind_eq_ok_iff]
    refine ⟨_, hadd, ?_⟩
    have hnodup : (RuleSet.names ⟨s.rules ++ a.rule?.toList, s.migrations ++ a.migration?.toList⟩ ++
        rest.map Artifact.name).Nodup :=
      ((names_of_add hadd).append_right _).nodup_iff.2 (List.perm_middle.nodup_iff.1 h)
    rw [← addAll, ih hnodup]
    cases a <;> simp [Artifact.rule?, Artifact.migration?, List.filterMap_cons]

/-- The sets that are built from the empty one. -/
inductive Built : RuleSet → Prop where
  | empty : Built .empty
  | add {s s' : RuleSet} {a : Artifact} : Built s → s.add a = .ok s' → Built s'
  | addUnit {s s' : RuleSet} {rejectComments : Bool} {root : Node} :
    Built s → s.addUnit rejectComments root = .ok s' → Built s'

/-- **No two artifacts of a set that was built have the same name.** -/
theorem Built.nodup_names (h : Built s) : s.names.Nodup := by
  induction h with
  | empty => exact List.nodup_nil
  | add _ hadd ih => exact nodup_names_of_add ih hadd
  | addUnit _ hadd ih =>
    obtain ⟨artifacts, -, hadd⟩ := Outcome.bind_eq_ok_iff.1 hadd
    exact nodup_names_of_addAll ih (Outcome.mapError_eq_ok_iff.1 hadd)

end RuleSet

end Codemod
