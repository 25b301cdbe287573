import Codemod.Proofs.Store.Builder
import Codemod.Proofs.Template.Scoping
import Codemod.Tree.Fresh
/-!
# Template groups of migrations in a rule set

The groups of a class with exactly two nested classes, one of them annotated,
become the two directions of a pair and nothing else. An annotated class that is
not one of exactly two nested classes declares a rule like any other class, and
its rule is added on its own (`RuleSetBuilder.exists_leaksGroup`).
-/

namespace Codemod

open Outcome

namespace ClassDeclaration

variable {c : ClassDeclaration} {rejectComments : Bool} {r : Rule} {p : MigrationPair}

/-- The rule bears the name of its class and what its annotations say. -/
theorem of_rule_eq_ok (h : c.rule rejectComments = .ok r) :
    r.name = c.name ∧ r.descriptor = c.descriptor rejectComments :=
  ⟨(readAs_of_rule h).name, (readAs_of_rule h).descriptor⟩

/-- The rule goes one way of a migration exactly if its class is annotated as
a group of one. -/
theorem isMigrationGroup_of_rule (h : c.rule rejectComments = .ok r) :
    c.isMigrationGroup = r.descriptor.migration.isSome := by
  have hfound : c.isMigrationGroup =
      Option.isSome ( Annotation.find? c.head.annotations Marker.migration) := by
    rw [isMigrationGroup, Annotation.isAmong, Annotation.find?, Bool.eq_iff_iff, List.any_eq_true,
      List.find?_isSome]
  rw [(of_rule_eq_ok h).2, hfound, descriptor]
  cases Annotation.find? c.head.annotations Marker.migration <;> rfl

/-- The rules of two classes are the directions of a pair. -/
structure MakePair (rejectComments : Bool) (forward backward : ClassDeclaration)
    (p : MigrationPair) : Prop where
  forward_eq : forward.rule rejectComments = .ok p.forward
  backward_eq : backward.rule rejectComments = .ok p.backward

/-- A class that declares a pair makes it of its two nested classes. -/
theorem exists_makePair_of_migrationPair (h : c.migrationPair rejectComments = .ok p) :
    ∃ first second, c.nested = [first, second] ∧
      (MakePair rejectComments first second p ∨ MakePair rejectComments second first p) := by
  rw [migrationPair] at h
  split at h
  · rename_i first second hnested
    obtain ⟨a, ha, h⟩ := bind_eq_ok_iff.1 h
    obtain ⟨b, hb, h⟩ := bind_eq_ok_iff.1 h
    replace ha := mapError_eq_ok_iff.1 ha
    replace hb := mapError_eq_ok_iff.1 hb
    refine ⟨first, second, hnested, ?_⟩
    split_ifs at h
    · obtain ⟨tys, -, hp⟩ := bind_eq_ok_iff.1 (mapError_eq_ok_iff.1 h)
      obtain rfl := pure_eq_ok_iff.1 hp
      exact .inr ⟨hb, ha⟩
    · obtain ⟨tys, -, hp⟩ := bind_eq_ok_iff.1 (mapError_eq_ok_iff.1 h)
      obtain rfl := pure_eq_ok_iff.1 hp
      exact .inl ⟨ha, hb⟩
  · exact absurd h nofun

/-- Each class of two makes one direction of their pair. -/
theorem rule_of_mem_nested (h : c.migrationPair rejectComments = .ok p) {g : ClassDeclaration}
    (hg : g ∈ c.nested) :
    g.rule rejectComments = .ok p.forward ∨ g.rule rejectComments = .ok p.backward := by
  obtain ⟨first, second, hnested, hpair⟩ := exists_makePair_of_migrationPair h
  rw [hnested, List.mem_pair] at hg
  rcases hg with rfl | rfl <;> rcases hpair with hpair | hpair
  · exact .inl hpair.forward_eq
  · exact .inr hpair.backward_eq
  · exact .inr hpair.backward_eq
  · exact .inl hpair.forward_eq

end ClassDeclaration

namespace Node

/-- The class is one of exactly two that some class of the tree nests. -/
def IsOneOfTwo (root : Node) (g : ClassDeclaration) : Prop :=
  ∃ c ∈ root.declaredClasses, c.nested.length = 2 ∧ g ∈ c.nested

variable {root : Node} {rejectComments : Bool} {pairs : List MigrationPair} {rules : List Rule}

/-- An annotated class that is one of two is a direction of a pair. -/
theorem exists_pair_of_isOneOfTwo (h : root.declaredPairs rejectComments = .ok pairs)
    {g : ClassDeclaration} (hannotated : g.isMigrationGroup = true) (hg : root.IsOneOfTwo g) :
    ∃ p ∈ pairs,
      g.rule rejectComments = .ok p.forward ∨ g.rule rejectComments = .ok p.backward := by
  obtain ⟨c, hc, htwo, hmem⟩ := hg
  have hdeclares : c.declaresMigration = true := by
    rw [ClassDeclaration.declaresMigration, Bool.and_eq_true, beq_iff_eq, List.any_eq_true]
    exact ⟨htwo, g, hmem, hannotated⟩
  obtain ⟨p, hp, hpair⟩ :=
    exists_result_of_mapM_eq_ok h (List.mem_filter.2 ⟨hc, hdeclares⟩)
  exact ⟨p, hp, ClassDeclaration.rule_of_mem_nested hpair hmem⟩

end Node

namespace RuleSetBuilder

variable {root : Node} {rejectComments : Bool} {rules : List Rule} {pairs : List MigrationPair}
  {g : ClassDeclaration} {r : Rule}

/-- No rule is added that bears the name of a class which makes a direction of
a pair. -/
theorem Call.Adds.name_ne (h : (Call.compileUnit rejectComments root).Adds rules pairs)
    (hannotated : g.isMigrationGroup = true) (hg : root.IsOneOfTwo g) (hr : r ∈ rules) :
    r.name ≠ g.name := by
  cases h with
  | unit hrules hpairs =>
    obtain ⟨p, hp, hrule⟩ := Node.exists_pair_of_isOneOfTwo hpairs hannotated hg
    have hnames := of_decide_eq_true (List.mem_filter.1 hr).2 p hp
    rcases hrule with hrule | hrule
    · exact (ClassDeclaration.of_rule_eq_ok hrule).1 ▸ hnames.1
    · exact (ClassDeclaration.of_rule_eq_ok hrule).1 ▸ hnames.2

/-- A rule that is added on its own is that of a class which defines templates. -/
theorem Call.Adds.exists_class (h : (Call.compileUnit rejectComments root).Adds rules pairs)
    (hr : r ∈ rules) : ∃ g ∈ root.declaredClasses,
      g.definesTemplates = true ∧ g.rule rejectComments = .ok r := by
  cases h with
  | unit hrules hpairs =>
    obtain ⟨g, hg, hrule⟩ := exists_of_mapM_eq_ok hrules (List.mem_filter.1 hr).1
    obtain ⟨hdeclared, htemplates⟩ := List.mem_filter.1 hg
    exact ⟨g, hdeclared, htemplates, hrule⟩

/-- **What becomes of the template groups of a tree that is added.** An annotated
class that is one of exactly two is a direction of an added pair, and no rule of
its name is added on its own. A rule that goes one way of a migration is added on
its own only for an annotated class that is not one of exactly two. -/
theorem groups_of_compileUnit (calls : List Call) {next : RuleSetBuilder}
    (h : (new.performAll calls).perform (.compileUnit rejectComments root) = (.ok (), next)) :
    ∃ (rules : List Rule) (pairs : List MigrationPair),
      next.rules.entries =
        (new.performAll calls).rules.entries ++ rules.map (fun r => (r.name, r)) ∧
      next.migrations = (new.performAll calls).migrations ++ pairs ∧
      (∀ g, g.isMigrationGroup = true → root.IsOneOfTwo g →
        (∃ p ∈ pairs,
          g.rule rejectComments = .ok p.forward ∨ g.rule rejectComments = .ok p.backward) ∧
        ∀ r ∈ rules, r.name ≠ g.name) ∧
      ∀ r ∈ rules, r.descriptor.migration ≠ none →
        ∃ g ∈ root.declaredClasses, g.definesTemplates = true ∧ g.isMigrationGroup = true ∧
          g.rule rejectComments = .ok r ∧ ¬ root.IsOneOfTwo g := by
  obtain ⟨rules, pairs, hadds, hentries, hmigrations⟩ :=
    exists_adds_of_perform (wellKept_new.performAll calls) h
  refine ⟨rules, pairs, hentries, hmigrations, fun g hannotated hg => ⟨?_, fun r hr =>
    hadds.name_ne hannotated hg hr⟩, fun r hr hmigration => ?_⟩
  · cases hadds with
    | unit _ hpairs => exact Node.exists_pair_of_isOneOfTwo hpairs hannotated hg
  · obtain ⟨g, hdeclared, htemplates, hrule⟩ := hadds.exists_class hr
    have hannotated : g.isMigrationGroup = true := by
      rw [ClassDeclaration.isMigrationGroup_of_rule hrule, Option.isSome_iff_ne_none]
      exact hmigration
    exact ⟨g, hdeclared, htemplates, hannotated, hrule, fun htwo =>
      hadds.name_ne hannotated htwo hr (ClassDeclaration.of_rule_eq_ok hrule).1⟩

/-! ## A conversion and its way back -/

/-- The parameter of a conversion. -/
def converted (ty : Ty) : Node := ((Fresh.ident "a").typed ty).resolved (.ofParam "a")

/-- A template of a conversion. -/
def conversionMethod (marker : String) (takes gives : Ty) (value : Node) : Node :=
  Fresh.methodDecl ⟨"convert", [⟨marker, ∅⟩], [], [⟨"a", takes, []⟩], gives⟩
    (some (Fresh.block [Fresh.ret (some value)]))

/-- A template group that converts by a method of the value. -/
def conversionGroup (name : String) (isBackward : Bool) (method : MethodSymbol) :
    ClassDeclaration :=
  let takes : Ty := .plain method.owner
  { head := ⟨name, [⟨Marker.migration, Dict.ofList [("value", .bool isBackward)]⟩], []⟩
    members := [
      conversionMethod Marker.before takes takes (converted takes),
      conversionMethod Marker.after takes method.returnType
        (Fresh.call (Fresh.select (converted takes) method.name) method [])] }

/-- The forward direction, from old to new. -/
def toNewGroup : ClassDeclaration :=
  conversionGroup "Conversion.ToNew" false ⟨"Old", "toNew", false, .plain "New", [], none⟩

/-- The backward direction, from new to old. -/
def toOldGroup : ClassDeclaration :=
  conversionGroup "Conversion.ToOld" true ⟨"New", "toOld", false, .plain "Old", [], none⟩

/-- A class that nests template groups. -/
def conversion (groups : List ClassDeclaration) : Node :=
  Fresh.unit [Fresh.classDecl ⟨"Conversion", [], []⟩
    (groups.map fun g => Fresh.classDecl g.head g.members)]

/-- Both groups together make a pair, and neither has a rule of its own. -/
theorem conversion_addsPair :
    ∃ next, new.perform (.compileUnit true (conversion [toNewGroup, toOldGroup])) = (.ok (), next) ∧
      next.rules.entries = [] ∧ ∃ p ∈ next.migrations,
        toNewGroup.rule true = .ok p.forward ∨ toNewGroup.rule true = .ok p.backward := by
  have hadded : (new.performAll []).perform
      (.compileUnit true (conversion [toNewGroup, toOldGroup])) = (.ok (), _) := rfl
  obtain ⟨rules, pairs, -, hmigrations, hgroups, -⟩ := groups_of_compileUnit [] hadded
  have htwo : (conversion [toNewGroup, toOldGroup]).IsOneOfTwo toNewGroup :=
    ⟨_, List.mem_cons_self, rfl, List.mem_cons_self⟩
  obtain ⟨⟨p, hp, hrule⟩, -⟩ := hgroups toNewGroup rfl htwo
  exact ⟨_, rfl, rfl, p, hmigrations ▸ hp, hrule⟩

/-- **A tree may be accepted and add a rule of a migration on its own**, which
happens where a class nests one group alone. -/
theorem exists_leaksGroup :
    ∃ next r, new.perform (.compileUnit true (conversion [toNewGroup])) = (.ok (), next) ∧
      next.rules.entries = [("Conversion.ToNew", r)] ∧ next.migrations = [] ∧
      r.descriptor.migration = some .forward :=
  ⟨_, _, rfl, rfl, rfl, rfl⟩

end RuleSetBuilder

end Codemod
