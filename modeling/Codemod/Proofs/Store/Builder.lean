import Codemod.Proofs.Store.RuleSet
import Codemod.Store.Builder
/-!
# What calls do to a builder

Every call either puts artifacts in whose names are free and distinct, behind
those that are there, or leaves the builder as it is (`RuleSetBuilder.perform_eq`,
`RuleSetBuilder.stage_eq_ok_iff`). Hence a builder stays well kept: names are
pairwise distinct and every rule stands under its own. Such a builder stands for
its rule set: it answers a look-up and a call as the set does
(`WellKept.get?_eq_rule?`, `WellKept.on_build`), and so the sets that builders
build are those that are built from the empty one (`built_iff_exists_performAll`).
-/

namespace Codemod

open Outcome

namespace RuleIndex

variable {t : RuleIndex} {key : String} {r : Rule}

theorem insert_of_notMem (h : key ∉ t.keys) : t.insert key r = ⟨t.entries ++ [(key, r)]⟩ := by
  rw [insert, if_neg (by rwa [List.contains_iff_mem])]

/-- Where rules stand under their own names, a look-up is a search for the name. -/
theorem get?_eq_find? (h : ∀ e ∈ t.entries, e.1 = e.2.name) :
    t.get? key = t.values.find? (·.name == key) := by
  obtain ⟨entries⟩ := t
  simp only [get?, values] at h ⊢
  induction entries with
  | nil => rfl
  | cons e rest ih =>
    rw [List.lookup_cons, List.map_cons, List.find?_cons, h e List.mem_cons_self,
      BEq.comm, ih fun e he => h e (List.mem_cons_of_mem _ he)]

end RuleIndex

namespace RuleSetBuilder

variable {b next : RuleSetBuilder} {a : Artifact} {artifacts : List Artifact}

/-- The names of the rules, then those of the migration pairs. -/
def names (b : RuleSetBuilder) : List String := b.rules.keys ++ b.migrations.map (·.name)

/-- Names are distinct, and every rule stands under its own. -/
structure WellKept (b : RuleSetBuilder) : Prop where
  nodup : b.names.Nodup
  named : ∀ e ∈ b.rules.entries, e.1 = e.2.name

/-- The builder with rules and pairs behind those that are there. -/
def extend (b : RuleSetBuilder) (rules : List Rule) (pairs : List MigrationPair) : RuleSetBuilder :=
  ⟨⟨b.rules.entries ++ rules.map fun r => (r.name, r)⟩, b.migrations ++ pairs⟩

theorem isTaken_iff {name : String} : b.isTaken name = true ↔ name ∈ b.names := by
  simp only [isTaken, names, Bool.or_eq_true, List.contains_iff_mem, List.any_eq_true, beq_iff_eq,
    List.mem_append, List.mem_map]

theorem names_extend (rules : List Rule) (pairs : List MigrationPair) :
    (b.extend rules pairs).names.Perm
      (b.names ++ (rules.map (·.name) ++ pairs.map (·.name))) := by
  simp only [names, extend, RuleIndex.keys, List.map_append, List.map_map, List.append_assoc]
  refine List.Perm.append_left _ ?_
  rw [← List.append_assoc, ← List.append_assoc]
  exact List.Perm.append_right _ List.perm_append_comm

/-- **A builder stays well kept when names come in that are free and distinct.** -/
theorem WellKept.extend {rules : List Rule} {pairs : List MigrationPair} (hb : b.WellKept)
    (hnew : (b.names ++ (rules.map (·.name) ++ pairs.map (·.name))).Nodup) :
    (b.extend rules pairs).WellKept where
  nodup := (names_extend rules pairs).nodup_iff.2 hnew
  named e he := by
    rcases List.mem_append.1 he with he | he
    · exact hb.named e he
    · obtain ⟨r, -, rfl⟩ := List.mem_map.1 he
      rfl

theorem WellKept.names_build (hb : b.WellKept) : b.build.names = b.names := by
  have hkeys : b.rules.values.map (·.name) = b.rules.keys := by
    rw [RuleIndex.values, RuleIndex.keys, List.map_map]
    exact List.map_congr_left fun e he => (hb.named e he).symm
  rw [RuleSet.names, build, hkeys, names]

/-- **A rule is found in a builder as in the set that it builds.** -/
theorem WellKept.get?_eq_rule? (hb : b.WellKept) (name : String) :
    b.rules.get? name = b.build.rule? name :=
  RuleIndex.get?_eq_find? hb.named

theorem wellKept_new : new.WellKept := ⟨List.nodup_nil, nofun⟩

/-! ## Artifacts one after another -/

theorem extend_extend (rules rules' : List Rule) (pairs pairs' : List MigrationPair) :
    (b.extend rules pairs).extend rules' pairs' = b.extend (rules ++ rules') (pairs ++ pairs') := by
  simp [extend]

theorem insert_of_notMem (h : a.name ∉ b.names) :
    b.insert a = b.extend a.rule?.toList a.migration?.toList := by
  cases a with
  | rule r =>
    have hfree : r.name ∉ b.rules.keys := fun hmem => h (List.mem_append_left _ hmem)
    simp [insert, RuleSetBuilder.extend, RuleIndex.insert_of_notMem hfree, Artifact.rule?,
      Artifact.migration?]
  | migration p => simp [insert, RuleSetBuilder.extend, Artifact.rule?, Artifact.migration?]

theorem names_insert (h : a.name ∉ b.names) : (b.insert a).names.Perm (b.names ++ [a.name]) := by
  have hone : a.rule?.toList.map (·.name) ++ a.migration?.toList.map (·.name) = [a.name] := by
    cases a <;> rfl
  rw [insert_of_notMem h, ← hone]
  exact names_extend _ _

theorem names_of_artifacts (artifacts : List Artifact) :
    ((artifacts.filterMap Artifact.rule?).map (·.name) ++
      (artifacts.filterMap Artifact.migration?).map (·.name)).Perm
        (artifacts.map Artifact.name) := by
  induction artifacts with
  | nil => exact List.Perm.refl _
  | cons a rest ih =>
    cases a with
    | rule r => exact ih.cons _
    | migration p => exact List.perm_middle.trans (ih.cons _)

/-- **Artifacts go in when their names are free and distinct, and not otherwise.** -/
theorem stage_eq_ok_iff (hb : b.names.Nodup) : b.stage artifacts = .ok next ↔
    (b.names ++ artifacts.map Artifact.name).Nodup ∧
      next = b.extend (artifacts.filterMap Artifact.rule?)
        (artifacts.filterMap Artifact.migration?) := by
  induction artifacts generalizing b with
  | nil => simp [stage, extend, hb, eq_comm]
  | cons a rest ih =>
    rw [stage]
    split_ifs with htaken
    · have hmem := isTaken_iff.1 htaken
      exact ⟨nofun, fun h => absurd rfl ((List.nodup_append.1 h.1).2.2 _ hmem _ List.mem_cons_self)⟩
    have hfree : a.name ∉ b.names := fun h => htaken (isTaken_iff.2 h)
    have hnext := (names_insert hfree).nodup_iff.2
      (List.perm_append_comm.nodup_iff.2 (List.nodup_cons.2 ⟨hfree, hb⟩))
    have hnames : ((b.insert a).names ++ rest.map Artifact.name).Perm
        (b.names ++ (a :: rest).map Artifact.name) := by
      rw [List.map_cons, ← List.singleton_append, ← List.append_assoc]
      exact (names_insert hfree).append_right _
    rw [ih hnext, hnames.nodup_iff, insert_of_notMem hfree, extend_extend]
    cases a <;> exact Iff.rfl

theorem WellKept.of_stage (hb : b.WellKept) (h : b.stage artifacts = .ok next) :
    next.WellKept := by
  obtain ⟨hnew, rfl⟩ := (stage_eq_ok_iff hb.nodup).1 h
  exact hb.extend (((names_of_artifacts artifacts).append_left _).nodup_iff.2 hnew)

/-! ## Calls -/

theorem run_bind {ε α β : Type} (x : Building ε α) (f : α → Building ε β) (b : RuleSetBuilder) :
    (x >>= f).run b = match x.run b with
      | (.ok a, next) => (f a).run next
      | (.error e, next) => (.error e, next) := by
  change (StateT.bind x.run (ExceptT.bindCont f) b : Id _) = _
  rw [StateT.bind]
  rcases x.run b with ⟨_ | _, next⟩ <;> rfl

theorem run_get {ε : Type} (b : RuleSetBuilder) :
    (get : Building ε RuleSetBuilder).run b = (.ok b, b) := rfl

theorem run_liftM {ε α : Type} (x : Except ε α) (b : RuleSetBuilder) :
    (liftM x : Building ε α).run b = (x, b) := by
  cases x <;> rfl

theorem run_checkFree (b : RuleSetBuilder) (name : String) :
    (checkFree name).run b = (if b.isTaken name then .error (.duplicate name) else .ok (), b) := by
  simp only [checkFree, run_bind, run_get]
  split_ifs <;> rfl

theorem run_addArtifact (b : RuleSetBuilder) (a : Artifact) :
    (addArtifact a).run b =
      if b.isTaken a.name then (.error (.duplicate a.name), b) else (.ok (), b.insert a) := by
  cases a with
  | rule r =>
    simp only [addArtifact, addRule, run_bind, run_checkFree, Artifact.name]
    by_cases h : b.isTaken r.name <;> simp only [h] <;> rfl
  | migration p =>
    simp only [addArtifact, addMigration, run_bind, run_checkFree, Artifact.name]
    by_cases h : b.isTaken p.name <;> simp only [h] <;> rfl

theorem run_compileUnit (b : RuleSetBuilder) (rejectComments : Bool) (root : Node) :
    (compileUnit rejectComments root).run b =
      match RuleSet.declared rejectComments root with
      | .error e => (.error (.declaration e), b)
      | .ok artifacts =>
        match b.stage artifacts with
        | .error e => (.error (.store e), b)
        | .ok next => (.ok (), next) := by
  simp only [compileUnit, run_bind, run_liftM, run_get]
  cases RuleSet.declared rejectComments root with
  | error e => rfl
  | ok artifacts =>
    cases h : b.stage artifacts with
    | error e => simp only [Except.mapError, h]
    | ok next =>
      simp only [Except.mapError, h]
      rfl

/-- What a call is about to put in. -/
def Call.additions : Call → Except PairDeclarationError (List Artifact)
  | .addRule r => .ok [.rule r]
  | .addMigration p => .ok [.migration p]
  | .addArtifact a => .ok [a]
  | .compileUnit rejectComments root => RuleSet.declared rejectComments root

/-- **A call puts all its artifacts in or leaves the builder as it is.** -/
theorem perform_eq (b : RuleSetBuilder) (c : Call) : b.perform c =
    match c.additions with
    | .error e => (.error (.declaration e), b)
    | .ok artifacts =>
      match b.stage artifacts with
      | .error e => (.error (.store e), b)
      | .ok next => (.ok (), next) := by
  have hone (a : Artifact) : ((addArtifact a).adapt UnitError.store).run b =
      match b.stage [a] with
      | .error e => (.error (.store e), b)
      | .ok next => (.ok (), next) := by
    change (((addArtifact a).run b).1.mapError UnitError.store, ((addArtifact a).run b).2) = _
    rw [run_addArtifact, stage]
    split_ifs <;> rfl
  cases c with
  | addRule r => exact hone (.rule r)
  | addMigration p => exact hone (.migration p)
  | addArtifact a => exact hone a
  | compileUnit rejectComments root => exact run_compileUnit b rejectComments root

theorem eq_of_perform_eq_error {c : Call} {e : UnitError} (h : b.perform c = (.error e, next)) :
    next = b := by
  rw [perform_eq] at h
  split at h
  · exact (Prod.mk.inj h).2.symm
  · split at h
    · exact (Prod.mk.inj h).2.symm
    · exact absurd (Prod.mk.inj h).1 nofun

theorem perform_eq_ok_iff {c : Call} : b.perform c = (.ok (), next) ↔
    ∃ artifacts, c.additions = .ok artifacts ∧ b.stage artifacts = .ok next := by
  rw [perform_eq]
  cases c.additions with
  | error e => simp
  | ok artifacts => cases h : b.stage artifacts <;> simp [h]

theorem WellKept.perform (hb : b.WellKept) (c : Call) : (b.perform c).2.WellKept := by
  rcases h : b.perform c with ⟨_ | _, next⟩
  · exact eq_of_perform_eq_error h ▸ hb
  · obtain ⟨artifacts, -, hstage⟩ := perform_eq_ok_iff.1 h
    exact hb.of_stage hstage

/-- **A builder stays well kept, whatever the calls and whether they fail or not.** -/
theorem WellKept.performAll (hb : b.WellKept) (calls : List Call) :
    (b.performAll calls).WellKept := by
  induction calls generalizing b with
  | nil => exact hb
  | cons c rest ih => exact ih (hb.perform c)

/-! ## The rule set a builder stands for -/

/-- A rule set takes an artifact as its builder does. -/
theorem WellKept.add_build (hb : b.WellKept) (a : Artifact) : b.build.add a =
    if b.isTaken a.name then .error (.duplicate a.name) else .ok (b.insert a).build := by
  have htaken : a.name ∈ b.build.names ↔ b.isTaken a.name = true := by
    rw [hb.names_build, isTaken_iff]
  split_ifs with h
  · unfold RuleSet.add
    rw [if_pos (List.contains_iff_mem.2 (htaken.2 h))]
  · refine RuleSet.add_eq_ok_iff.2 ⟨fun hmem => h (htaken.1 hmem), ?_⟩
    rw [insert_of_notMem fun hmem => h (isTaken_iff.2 hmem)]
    simp [build, RuleSetBuilder.extend, RuleIndex.values, Function.comp_def]

/-- **Artifacts go into a builder as into its rule set**, and fail with the same
error. -/
theorem WellKept.addAll_build (hb : b.WellKept) (artifacts : List Artifact) :
    b.build.addAll artifacts = (b.stage artifacts).map build := by
  induction artifacts generalizing b with
  | nil => rfl
  | cons a rest ih =>
    rw [RuleSet.addAll, List.foldlM_cons, hb.add_build, stage]
    split_ifs with htaken
    · rfl
    · have hone : b.stage [a] = .ok (b.insert a) := if_neg htaken
      exact ih (hb.of_stage hone)

/-- What a call would do to a rule set. -/
def Call.on (s : RuleSet) : Call → Except UnitError RuleSet
  | .addRule r => (s.add (.rule r)).mapError .store
  | .addMigration p => (s.add (.migration p)).mapError .store
  | .addArtifact a => (s.add a).mapError .store
  | .compileUnit rejectComments root => s.addUnit rejectComments root

theorem Call.on_eq (c : Call) (s : RuleSet) : c.on s =
    c.additions.mapError UnitError.declaration >>= fun artifacts =>
      (s.addAll artifacts).mapError .store := by
  have hone (a : Artifact) :
      (s.add a).mapError UnitError.store = (s.addAll [a]).mapError UnitError.store := by
    rw [RuleSet.addAll, List.foldlM_cons]
    cases s.add a <;> rfl
  cases c with
  | addRule r => exact hone (.rule r)
  | addMigration p => exact hone (.migration p)
  | addArtifact a => exact hone a
  | compileUnit rejectComments root => rfl

/-- **A call does to a builder what it would do to its rule set**: the set that
is built after it, or the error, is that of the set. -/
theorem WellKept.on_build (hb : b.WellKept) (c : Call) :
    c.on b.build = (b.perform c).1.map fun _ => (b.perform c).2.build := by
  rw [Call.on_eq, perform_eq]
  cases c.additions with
  | error e => rfl
  | ok artifacts =>
    change (b.build.addAll artifacts).mapError UnitError.store = _
    rw [hb.addAll_build]
    cases h : b.stage artifacts <;> simp only [h] <;> rfl

theorem performAll_concat (calls : List Call) (c : Call) :
    b.performAll (calls ++ [c]) = ((b.performAll calls).perform c).2 := by
  rw [performAll, List.foldl_concat]
  rfl

theorem WellKept.built_perform (hb : b.WellKept) (h : b.build.Built) (c : Call) :
    (b.perform c).2.build.Built := by
  have hon := hb.on_build c
  rcases hperform : b.perform c with ⟨_ | _, next⟩
  · exact eq_of_perform_eq_error hperform ▸ h
  rw [hperform] at hon
  cases c with
  | addRule r => exact .add h (Outcome.mapError_eq_ok_iff.1 hon)
  | addMigration p => exact .add h (Outcome.mapError_eq_ok_iff.1 hon)
  | addArtifact a => exact .add h (Outcome.mapError_eq_ok_iff.1 hon)
  | compileUnit rejectComments root => exact .addUnit h hon

/-- A set that is built from the empty one is built by the calls that add to it. -/
theorem exists_performAll_of_built {s : RuleSet} (h : s.Built) :
    ∃ calls, (new.performAll calls).build = s := by
  have hstep {s s' : RuleSet} (c : Call) (hs : ∃ calls, (new.performAll calls).build = s)
      (hc : c.on s = .ok s') : ∃ calls, (new.performAll calls).build = s' := by
    obtain ⟨calls, rfl⟩ := hs
    refine ⟨calls ++ [c], ?_⟩
    rw [(wellKept_new.performAll calls).on_build] at hc
    rw [performAll_concat]
    rcases h : (new.performAll calls).perform c with ⟨_ | _, next⟩
    · exact absurd (h ▸ hc) nofun
    · exact Except.ok.inj (h ▸ hc)
  induction h with
  | empty => exact ⟨[], rfl⟩
  | @add s s' a _ hadd ih => exact hstep (.addArtifact a) ih (Outcome.mapError_eq_ok_iff.2 hadd)
  | @addUnit s s' rejectComments root _ hadd ih =>
    exact hstep (.compileUnit rejectComments root) ih hadd

/-- **The sets that are built from the empty one are those that builders build.** -/
theorem built_iff_exists_performAll {s : RuleSet} :
    s.Built ↔ ∃ calls, (new.performAll calls).build = s := by
  constructor
  · exact exists_performAll_of_built
  rintro ⟨calls, rfl⟩
  induction calls using List.reverseRecOn with
  | nil => exact .empty
  | append_singleton calls c ih =>
    rw [performAll_concat]
    exact (wellKept_new.performAll calls).built_perform ih c

/-! ## What a call adds -/

/-- What a call adds when it does not fail: of a tree, the rules in the order of
their classes, except those that bear the name of one direction of a pair, and
all the pairs. -/
inductive Call.Adds : Call → List Rule → List MigrationPair → Prop where
  | rule (r : Rule) : Adds (.addRule r) [r] []
  | migration (p : MigrationPair) : Adds (.addMigration p) [] [p]
  | artifactRule (r : Rule) : Adds (.addArtifact (.rule r)) [r] []
  | artifactMigration (p : MigrationPair) : Adds (.addArtifact (.migration p)) [] [p]
  | unit {rejectComments : Bool} {root : Node} {rules : List Rule} {pairs : List MigrationPair} :
    root.declaredRules rejectComments = .ok rules → root.declaredPairs rejectComments = .ok pairs →
    Adds (.compileUnit rejectComments root)
      (rules.filter fun r => ∀ p ∈ pairs, r.name ≠ p.forward.name ∧ r.name ≠ p.backward.name) pairs

theorem Call.adds_of_additions_eq_ok {c : Call} (h : c.additions = .ok artifacts) :
    c.Adds (artifacts.filterMap Artifact.rule?) (artifacts.filterMap Artifact.migration?) := by
  cases c with
  | addRule r =>
    obtain rfl := Except.ok.inj h
    exact .rule r
  | addMigration p =>
    obtain rfl := Except.ok.inj h
    exact .migration p
  | addArtifact a =>
    obtain rfl := Except.ok.inj h
    cases a with
    | rule r => exact .artifactRule r
    | migration p => exact .artifactMigration p
  | compileUnit rejectComments root =>
    obtain ⟨pairs, rules, hpairs, hrules, rfl⟩ := RuleSet.declared_eq_ok_iff.1 h
    let added : RuleSet := ⟨rules.filter fun r => !pairs.any (RuleSet.isGroupOf r), pairs⟩
    have hadded : added.rules = rules.filter fun r =>
        ∀ p ∈ pairs, r.name ≠ p.forward.name ∧ r.name ≠ p.backward.name :=
      List.filter_congr fun r _ => by
        rw [Bool.eq_iff_iff]
        simp [RuleSet.isGroupOf]
    show (Call.compileUnit rejectComments root).Adds (added.artifacts.filterMap Artifact.rule?)
      (added.artifacts.filterMap Artifact.migration?)
    rw [added.filterMap_rule?_artifacts, added.filterMap_migration?_artifacts, hadded]
    exact .unit hrules hpairs

/-- A call that does not fail puts what it adds behind what is there. -/
theorem exists_adds_of_perform {c : Call} (hb : b.WellKept) (h : b.perform c = (.ok (), next)) :
    ∃ rules pairs, c.Adds rules pairs ∧
      next.rules.entries = b.rules.entries ++ rules.map (fun r => (r.name, r)) ∧
      next.migrations = b.migrations ++ pairs := by
  obtain ⟨artifacts, hadditions, hstage⟩ := perform_eq_ok_iff.1 h
  obtain ⟨-, rfl⟩ := (stage_eq_ok_iff hb.nodup).1 hstage
  exact ⟨_, _, Call.adds_of_additions_eq_ok hadditions, rfl, rfl⟩

/-- **Whatever calls a builder has seen, its names are pairwise distinct and
every rule stands under its own; and the next call either fails and changes
nothing, or puts what it adds behind what is there.** -/
theorem wellKept_and_perform (calls : List Call) (c : Call) :
    let b := new.performAll calls
    b.WellKept ∧
      match b.perform c with
      | (.error _, next) => next = b
      | (.ok (), next) => ∃ rules pairs, c.Adds rules pairs ∧
          next.rules.entries = b.rules.entries ++ rules.map (fun r => (r.name, r)) ∧
          next.migrations = b.migrations ++ pairs := by
  intro b
  have hb : b.WellKept := wellKept_new.performAll calls
  refine ⟨hb, ?_⟩
  rcases h : b.perform c with ⟨_ | _, next⟩
  · exact eq_of_perform_eq_error h
  · exact exists_adds_of_perform hb h

end RuleSetBuilder

end Codemod
