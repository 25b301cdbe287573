import Codemod.Proofs.Migration.Conversion
import Codemod.Tree.Fresh
/-!
# Migrated call sites

At a call site the method is renamed, and what is edited besides are values that
are converted (`CallSiteMigration.exists_conversions_of_migrate`). Each value
whose type the chosen pair takes is converted as a whole, unless the forward
rule spares it: then the method is renamed all the same, and returns a value of
the old type (`CallSiteMigration.renamesAlone_stubbings`). What the pass over a
laid out tree finds are such call sites
(`CallSiteMigration.exists_conversions_of_mem_findings`).
-/

namespace Codemod

open Outcome

namespace CallSiteMigration

variable {m : CallSiteMigration} {root : Node} {place : Place} {site : CallSite}

/-! ## Where the values stand -/

theorem argumentsOf_subset (n : Node) : argumentsOf n ⊆ n.children := by
  cases n
  case call => exact List.subset_cons_self _ _
  all_goals exact List.nil_subset _

theorem call?_eq_some {n call : Node} (h : call? n = some call) : call = n.skipParens := by
  unfold call? at h
  split at h
  · rename_i hcall
    rw [hcall, Option.some.inj h]
  · exact absurd h (by simp)

/-- The calls of a chain are around its first call. -/
theorem mem_of_mem_chain {methods : List String} {above : List Ancestor} {n : Node}
    (h : n ∈ chain methods above) : ∃ ancestor ∈ above, ancestor.node = n := by
  fun_induction chain methods above with
  | case1 parent grandparent rest _ _ _ _ _ _ _ _ _ _ ih =>
    rcases List.mem_cons.1 h with rfl | h
    · exact ⟨grandparent, by simp, rfl⟩
    · obtain ⟨ancestor, hancestor, hn⟩ := ih h
      exact ⟨ancestor, by simp [hancestor], hn⟩
  | case2 | case3 | case4 => exact absurd h List.not_mem_nil

/-- The values before `when` are the arguments of what it is selected on. -/
theorem exists_of_returnedValues? {callee : Node} {values : List Node}
    (h : m.returnedValues? callee = some values) :
    ∃ info returning name span, callee = .select info returning name span ∧
      values = argumentsOf returning.skipParens := by
  unfold returnedValues? at h
  split at h
  · obtain ⟨call, hcall, h⟩ := Option.bind_eq_some_iff.1 h
    obtain ⟨_, -, h⟩ := Option.bind_eq_some_iff.1 h
    rw [Option.ite_none_right_eq_some] at h
    obtain ⟨-, hvalues⟩ := h
    obtain rfl := Option.some.inj hvalues
    obtain rfl := call?_eq_some hcall
    exact ⟨_, _, _, _, rfl, rfl⟩
  · exact absurd h (by simp)

/-- **The values of a call site stand in its tree.** -/
theorem exists_stands_of_mem_arguments (hplace : place ∈ root.places)
    (hsite : m.recognise? place.node place.above = some site) {value : Node}
    (hvalue : value ∈ site.arguments) : ∃ depth, root.Stands depth value := by
  obtain ⟨⟨depth, hnode⟩, habove⟩ := Node.exists_stands_of_mem_places hplace
  have hargument : ∀ {n : Node} {depth : Nat}, root.Stands depth n → value ∈ argumentsOf n →
      ∃ depth, root.Stands depth value := fun hn h => ⟨_, hn.child (argumentsOf_subset _ h)⟩
  unfold recognise? at hsite
  split at hsite
  · rename_i i callee args hcall
    rw [hcall] at hnode
    obtain ⟨method, -, hsite⟩ := Option.bind_eq_some_iff.1 hsite
    split at hsite
    · -- After `when`, the values are those of the calls around.
      unfold whenSite? at hsite
      split at hsite
      · obtain ⟨target, -, hsite⟩ := Option.bind_eq_some_iff.1 hsite
        obtain ⟨last, -, hsite⟩ := Option.bind_eq_some_iff.1 hsite
        obtain rfl := Option.some.inj hsite
        obtain ⟨link, hlink, hvalue⟩ := List.mem_flatMap.1 hvalue
        obtain ⟨ancestor, hancestor, rfl⟩ := mem_of_mem_chain hlink
        obtain ⟨depth', hstands⟩ := habove ancestor hancestor
        exact hargument hstands hvalue
      · exact absurd hsite (by simp)
    · obtain ⟨outer, -, hsite⟩ := Option.bind_eq_some_iff.1 hsite
      split at hsite
      · obtain rfl := Option.some.inj hsite
        exact absurd hvalue List.not_mem_nil
      · split at hsite
        · -- Before `when`, they are those of the call that it is selected on.
          obtain ⟨values, hreturned, hsite⟩ := Option.map_eq_some_iff.1 hsite
          obtain rfl := hsite
          obtain ⟨_, returning, _, _, rfl, rfl⟩ := exists_of_returnedValues? hreturned
          have hcallee := hnode.child List.mem_cons_self
          exact hargument (hcallee.child List.mem_cons_self).skipParens hvalue
        · exact absurd hsite (by simp)
  · exact absurd hsite (by simp)

/-! ## The fix of all values -/

/-- The fix of all values puts together the fixes of each, in order. -/
theorem exists_fixes_of_convertAll {rule : Rule} {values : List Node} {fix : Fix}
    (h : m.convertAll rule values = .ok fix) :
    ∃ fixes, values.mapM (m.convert rule) = .ok fixes ∧ fix.edits = fixes.flatMap Fix.edits := by
  induction values generalizing fix with
  | nil =>
    obtain rfl := Except.ok.inj h
    exact ⟨[], rfl, rfl⟩
  | cons v values ih =>
    obtain ⟨first, hfirst, h⟩ := bind_eq_ok_iff.1 h
    obtain ⟨rest, hrest, h⟩ := bind_eq_ok_iff.1 h
    obtain rfl := pure_eq_ok_iff.1 h
    obtain ⟨fixes, hfixes, hedits⟩ := ih hrest
    refine ⟨first :: fixes, ?_, ?_⟩
    · rw [List.mapM_cons, hfirst, hfixes]
      rfl
    · rw [List.flatMap_cons, ← hedits, Fix.merge]

/-- The edits of all values are those of each. -/
theorem exists_of_convertAll {rule : Rule} {values : List Node} {fix : Fix}
    (h : m.convertAll rule values = .ok fix) :
    (∀ v ∈ values, ∃ f, m.convert rule v = .ok f ∧ f.edits ⊆ fix.edits) ∧
      ∀ e ∈ fix.edits, ∃ v ∈ values, ∃ f, m.convert rule v = .ok f ∧ e ∈ f.edits := by
  obtain ⟨fixes, hfixes, hedits⟩ := exists_fixes_of_convertAll h
  rw [hedits]
  constructor
  · intro v hv
    obtain ⟨f, hmem, hf⟩ := exists_result_of_mapM_eq_ok hfixes hv
    exact ⟨f, hf, fun e he => List.mem_flatMap.2 ⟨f, hmem, he⟩⟩
  · intro e he
    obtain ⟨f, hmem, he⟩ := List.mem_flatMap.1 he
    obtain ⟨v, hv, hf⟩ := exists_of_mapM_eq_ok hfixes hmem
    exact ⟨v, hv, f, hf, he⟩

/-! ## The fix of a call site -/

/-- The renaming and the fix of the values, in source order. -/
def siteFix (m : CallSiteMigration) (site : CallSite) (method : MethodSymbol) (fix : Fix) : Fix :=
  let both :=
    Fix.merge (.ofEdits [⟨nameSpan site.target, m.conventions.migratedName method⟩]) fix
  { both with edits := both.edits.mergeSort Edit.le }

theorem edits_found_siteFix (rule : String) (method : MethodSymbol) (fix : Fix) :
    (found rule site (m.siteFix site method fix)).edits.Perm
      (⟨nameSpan site.target, m.conventions.migratedName method⟩ :: fix.edits) :=
  List.mergeSort_perm _ _

/-- **When a call site is migrated**: its method has a counterpart that the
method around it does not use yet, no value makes a callback, and a pair takes
what the method returns. -/
theorem migrateSite_eq_ok_some_iff {method : MethodSymbol} {above : List Ancestor}
    {finding : Finding} (hvalues : site.renameOnly = false) :
    m.migrateSite site method above = .ok (some finding) ↔
      m.hasCounterpart method = true ∧
      alreadyMigrated above (m.conventions.migratedName method) = false ∧
      site.arguments.any m.isCallback = false ∧
      ∃ pair fix, m.pair? method.returnType = some pair ∧
        m.convertAll pair.forward site.arguments = .ok fix ∧
        finding = found pair.name site (m.siteFix site method fix) := by
  unfold migrateSite
  dsimp only
  rw [hvalues]
  constructor
  · intro h
    split at h
    · exact absurd h (by simp)
    rename_i hcounterpart
    rw [if_neg Bool.false_ne_true] at h
    split at h
    · exact absurd h (by simp)
    rename_i hfresh
    rw [Bool.or_eq_true, not_or, Bool.not_eq_true, Bool.not_eq_true] at hfresh
    split at h
    · exact absurd h (by simp)
    rename_i pair hpair
    obtain ⟨fix, hfix, h⟩ := bind_eq_ok_iff.1 h
    obtain rfl := Option.some.inj (pure_eq_ok_iff.1 h)
    exact ⟨by simpa using hcounterpart, hfresh.1, hfresh.2, pair, fix, hpair, hfix, rfl⟩
  · rintro ⟨hcounterpart, hfresh, hcallbacks, pair, fix, hpair, hfix, rfl⟩
    rw [hcounterpart, hfresh, hcallbacks, hpair]
    dsimp only
    rw [hfix]
    rfl

/-- Where there are no values, the method is renamed whenever it has a
counterpart. -/
theorem migrateSite_eq_ok_some_iff_of_renameOnly {method : MethodSymbol} {above : List Ancestor}
    {finding : Finding} (hrename : site.renameOnly = true) :
    m.migrateSite site method above = .ok (some finding) ↔
      m.hasCounterpart method = true ∧ finding = found renameRuleName site
        (.ofEdits [⟨nameSpan site.target, m.conventions.migratedName method⟩]) := by
  unfold migrateSite
  dsimp only
  rw [hrename, if_pos rfl]
  cases m.hasCounterpart method with
  | false => simp
  | true => simp [eq_comm]

/-- A node is the anchor of a finding if a call site is recognised there whose
method is known, and is migrated. -/
theorem migrate_eq_ok_some_iff {node : Node} {above : List Ancestor} {finding : Finding} :
    m.migrate node above = .ok (some finding) ↔
      ∃ site method, m.recognise? node above = some site ∧
        site.target.methodSymbol? = some method ∧
        m.migrateSite site method above = .ok (some finding) := by
  unfold migrate
  cases m.recognise? node above with
  | none => simp
  | some site => cases hmethod : site.target.methodSymbol? <;> simp [hmethod]

/-- **A call site is migrated** by a renaming and conversions of its values. -/
theorem exists_of_migrate {finding : Finding}
    (hsite : m.recognise? place.node place.above = some site) (hvalues : site.renameOnly = false)
    (h : m.migrate place.node place.above = .ok (some finding)) :
    ∃ method pair fix, site.target.methodSymbol? = some method ∧
      m.pair? method.returnType = some pair ∧
      m.convertAll pair.forward site.arguments = .ok fix ∧ finding.span = site.span ∧
      finding.edits.Perm
        (⟨nameSpan site.target, m.conventions.migratedName method⟩ :: fix.edits) := by
  obtain ⟨site', method, hsite', hmethod, h⟩ := migrate_eq_ok_some_iff.1 h
  obtain rfl := Option.some.inj (hsite.symm.trans hsite')
  obtain ⟨-, -, -, pair, fix, hpair, hfix, rfl⟩ := (migrateSite_eq_ok_some_iff hvalues).1 h
  exact ⟨method, pair, fix, hmethod, hpair, hfix, rfl, edits_found_siteFix _ _ _⟩

/-- All pairs of the migration were validated and take every value. -/
def HasPairsOfValues (m : CallSiteMigration) : Prop :=
  ∀ pair ∈ m.pairs, pair.IsValidated ∧ pair.TakesEveryValue

/-- **Where spans nest, every value of a site is converted** that a validated pair
takes and its forward rule does not spare. Nothing else is edited there. -/
theorem conversions_of_convertAll {pair : MigrationPair} {fix : Fix} (hspans : root.SpansNest)
    (hvalidated : pair.IsValidated) (hevery : pair.TakesEveryValue) (hplace : place ∈ root.places)
    (hsite : m.recognise? place.node place.above = some site)
    (hfix : m.convertAll pair.forward site.arguments = .ok fix) :
    (∀ e ∈ fix.edits, m.IsConversion pair.forward e) ∧
      ∀ value ∈ site.arguments, ∀ ty, value.skipParens.isExpression = true →
        value.skipParens.ty? = some ty → m.oracle.accepts pair.typeFrom ty = true →
        (∃ e ∈ fix.edits, e.span = value.skipParens.span) ∨ m.Spares pair.forward value := by
  obtain ⟨before, p, hbefore, hbare⟩ := hevery
  obtain ⟨before', after, p', hconverts⟩ := hvalidated.exists_converts
  obtain rfl : before = before' := by
    have hsame := hbefore.symm.trans hconverts.before_eq
    exact (List.cons.inj hsame).1
  obtain rfl : p = p' := by
    have hsame := hbare.1.symm.trans hconverts.params_eq
    exact (List.cons.inj hsame).1
  obtain ⟨hall, hsome⟩ := exists_of_convertAll hfix
  constructor
  · intro e he
    obtain ⟨value, -, f, hf, he⟩ := hsome e he
    exact isConversion_of_mem_convert hconverts hbare hf he
  · intro value hvalue ty hexpr hty haccepts
    by_cases hspares : m.Spares pair.forward value
    · exact .inr hspares
    · obtain ⟨depth, hstands⟩ := exists_stands_of_mem_arguments hplace hsite hvalue
      obtain ⟨f, hf, hsub⟩ := hall value hvalue
      obtain ⟨e, he, hspan⟩ := exists_edit_of_convert hconverts hbare (hspans.of_stands hstands)
        hexpr hty haccepts hspares hf
      exact .inl ⟨e, hsub he, hspan⟩

/-- **At a migrated call site every value is converted** that the chosen pair
takes and its forward rule does not spare. Nothing else is edited but the name
of the method. -/
theorem exists_conversions_of_migrate {finding : Finding} (hspans : root.SpansNest)
    (hpairs : m.HasPairsOfValues) (hplace : place ∈ root.places)
    (hsite : m.recognise? place.node place.above = some site) (hvalues : site.renameOnly = false)
    (h : m.migrate place.node place.above = .ok (some finding)) :
    ∃ method pair conversions, site.target.methodSymbol? = some method ∧
      m.pair? method.returnType = some pair ∧
      finding.edits.Perm
        (⟨nameSpan site.target, m.conventions.migratedName method⟩ :: conversions) ∧
      (∀ e ∈ conversions, m.IsConversion pair.forward e) ∧
      ∀ value ∈ site.arguments, ∀ ty, value.skipParens.isExpression = true →
        value.skipParens.ty? = some ty → m.oracle.accepts pair.typeFrom ty = true →
        (∃ e ∈ conversions, e.span = value.skipParens.span) ∨ m.Spares pair.forward value := by
  obtain ⟨method, pair, fix, hmethod, hpair, hfix, -, hedits⟩ := exists_of_migrate hsite hvalues h
  obtain ⟨hvalidated, hevery⟩ := hpairs pair (List.mem_of_find?_eq_some hpair)
  exact ⟨method, pair, fix.edits, hmethod, hpair, hedits,
    conversions_of_convertAll hspans hvalidated hevery hplace hsite hfix⟩

/-- A finding of the pass over a tree is that of a place in it. -/
theorem exists_place_of_mem_findings {found : List Finding} (h : m.findings root = .ok found)
    {f : Finding} (hf : f ∈ found) :
    ∃ place ∈ root.places, m.migrate place.node place.above = .ok (some f) := by
  obtain ⟨all, hall, h⟩ := bind_eq_ok_iff.1 h
  obtain rfl := pure_eq_ok_iff.1 h
  obtain ⟨_, hmem, rfl⟩ := List.mem_filterMap.1 (Finding.mem_of_mem_selectCompatible hf)
  exact exists_of_mapM_eq_ok hall hmem

/-- **So does the pass over a laid out tree**: each of its findings renames a method
at a call site of the tree, and converts every value there that the chosen pair
takes and its forward rule does not spare. -/
theorem exists_conversions_of_mem_findings {tree : Node} {found : List Finding}
    (hpairs : m.HasPairsOfValues) (h : m.findings tree.laidOut = .ok found) {f : Finding}
    (hf : f ∈ found) :
    ∃ place ∈ tree.laidOut.places, ∃ site, m.recognise? place.node place.above = some site ∧
      (site.renameOnly = false → ∃ method pair conversions,
        site.target.methodSymbol? = some method ∧ m.pair? method.returnType = some pair ∧
        f.edits.Perm
          (⟨nameSpan site.target, m.conventions.migratedName method⟩ :: conversions) ∧
        (∀ e ∈ conversions, m.IsConversion pair.forward e) ∧
        ∀ value ∈ site.arguments, ∀ ty, value.skipParens.isExpression = true →
          value.skipParens.ty? = some ty → m.oracle.accepts pair.typeFrom ty = true →
          (∃ e ∈ conversions, e.span = value.skipParens.span) ∨ m.Spares pair.forward value) := by
  obtain ⟨place, hplace, hmigrate⟩ := exists_place_of_mem_findings h hf
  obtain ⟨site, _, hsite, -⟩ := migrate_eq_ok_some_iff.1 hmigrate
  refine ⟨place, hplace, site, hsite, fun hvalues => ?_⟩
  obtain ⟨method, pair, fix, hmethod, hpair, hfix, -, hedits⟩ :=
    exists_of_migrate hsite hvalues hmigrate
  obtain ⟨hvalidated, hevery⟩ := hpairs pair (List.mem_of_find?_eq_some hpair)
  exact ⟨method, pair, fix.edits, hmethod, hpair, hedits, conversions_of_convertAll
    (Node.spansNest_laidOut tree) hvalidated hevery hplace hsite hfix⟩

/-! ## Values that stay as they are -/

/-- In a tree whose spans nest, a migration by pairs that take every value renames
a method, and no edit covers a value of it whose type the chosen pair takes. -/
def RenamesAlone (m : CallSiteMigration) (root : Node) : Prop :=
  m.HasPairsOfValues ∧ root.SpansNest ∧
  ∃ place ∈ root.places, ∃ site method pair finding,
    m.recognise? place.node place.above = some site ∧ site.renameOnly = false ∧
    site.target.methodSymbol? = some method ∧ m.pair? method.returnType = some pair ∧
    m.migrate place.node place.above = .ok (some finding) ∧
    ∃ value ∈ site.arguments, value.skipParens.isExpression = true ∧
      (∃ ty, value.skipParens.ty? = some ty ∧ m.oracle.accepts pair.typeFrom ty = true) ∧
      ∀ e ∈ finding.edits, e.span.contains value.skipParens.span = false

/-! ## Stubbings of one value

Offsets are those of the text `when(r.m()).thenReturn(` with the value after
it. -/

/-- A pair that converts values of a type to `New` by a method of theirs. -/
def toNew (ty returned : Ty) (guard : Option Template.Guard) : MigrationPair where
  name := "Conversion"
  forward :=
    { name := "com.example.Conversion.ToNew"
      before := [⟨"before", [], [⟨"a", ty, guard⟩], returned, .expr (.placeholder "a")⟩]
      after := [⟨"after", [], [⟨"a", ty, none⟩], .plain "com.example.New",
        .expr (.call (.placeholder "a") ⟨"com.example.Old", "toNew", false⟩ [])⟩]
      descriptor := ⟨true, some .forward, none, none⟩ }
  backward :=
    { name := "com.example.Conversion.ToOld"
      before := [⟨"before", [], [⟨"b", .plain "com.example.New", none⟩], .plain "com.example.New",
        .expr (.placeholder "b")⟩]
      after := [⟨"after", [], [⟨"b", .plain "com.example.New", none⟩], ty,
        .expr (.call (.placeholder "b") ⟨"com.example.New", "toOld", false⟩ [])⟩]
      descriptor := ⟨true, some .backward, none, none⟩ }
  typeFrom := ty
  typeTo := .plain "com.example.New"

/-- A method that has a migrated counterpart. -/
def stubbedMethod (returned : Ty) : MethodSymbol :=
  ⟨"com.example.Repository", "m", false, returned, [], some "this.m_migrated()"⟩

/-- The call `r.m()` of it. -/
def stubbed (returned : Ty) : Node :=
  .call ⟨⟨5, 10⟩, some returned, some (.ofMethod (stubbedMethod returned))⟩
    (.select ⟨⟨5, 8⟩, none, none⟩ (.ident ⟨⟨5, 6⟩, none, none⟩ "r") "m" ⟨7, 8⟩) []

/-- The call `when(r.m())`. -/
def whenCall (returned : Ty) : Node :=
  .call ⟨⟨0, 11⟩, none, some (.ofMethod
      ⟨"org.mockito.Mockito", "when", true, .plain "java.lang.Object", [], none⟩)⟩
    (.ident ⟨⟨0, 4⟩, none, none⟩ "when") [stubbed returned]

/-- The method `thenReturn` of it. -/
def thenReturn (returned : Ty) : Node :=
  .select ⟨⟨0, 22⟩, none, none⟩ (whenCall returned) "thenReturn" ⟨12, 22⟩

/-- The whole stubbing. -/
def stubbing (returned : Ty) (value : Node) : Node :=
  .call ⟨⟨0, value.span.stop + 1⟩, none, none⟩ (thenReturn returned) [value]

/-- The place of `when` in it. -/
def whenPlace (returned : Ty) (value : Node) : Place :=
  ⟨whenCall returned, [⟨thenReturn returned, 0⟩, ⟨stubbing returned value, 0⟩]⟩

/-- The stubbing as it is recognised. -/
def stubbingSite (returned : Ty) (value : Node) : CallSite :=
  ⟨stubbed returned, [value], (whenCall returned).span.hull (stubbing returned value).span, false⟩

/-- The migration of the stubbing by one pair. -/
def migrationBy (pair : MigrationPair) (text : String) : CallSiteMigration :=
  ⟨[pair], Hierarchy.javaLang.oracle, "when(r.m()).thenReturn(" ++ text ++ ")", .standard⟩

section

variable {pair : MigrationPair} {text : String} {returned ty : Ty} {value : Node}

theorem hasPairsOfValues_migrationBy (hvalidated : pair.IsValidated)
    (hevery : pair.TakesEveryValue) : (migrationBy pair text).HasPairsOfValues :=
  List.forall_mem_singleton.2 ⟨hvalidated, hevery⟩

theorem mem_places_stubbing : whenPlace returned value ∈ (stubbing returned value).places := by
  have hstart : whenPlace returned value ∈ Node.placesUnder
      [⟨thenReturn returned, 0⟩, ⟨stubbing returned value, 0⟩] (whenCall returned) := by
    rw [Node.placesUnder_eq]
    exact List.mem_cons_self
  have hselected : whenPlace returned value ∈
      Node.placesUnder [⟨stubbing returned value, 0⟩] (thenReturn returned) := by
    rw [Node.placesUnder_eq]
    exact List.mem_cons_of_mem _
      (List.mem_flatMap.2 ⟨(whenCall returned, 0), List.mem_cons_self, hstart⟩)
  rw [Node.places, Node.placesUnder_eq]
  exact List.mem_cons_of_mem _
    (List.mem_flatMap.2 ⟨(thenReturn returned, 0), List.mem_cons_self, hselected⟩)

theorem spansNest_stubbing (hvalue : value.SpansNest) (hstart : 22 ≤ value.span.start) :
    (stubbing returned value).SpansNest := by
  have hleaf {info : NodeInfo} {name : String} (h : info.span.start ≤ info.span.stop) :
      (Node.ident info name).SpansNest := Node.spansNest_iff.2 ⟨h, nofun⟩
  have hselect : (Node.select ⟨⟨5, 8⟩, none, none⟩ (.ident ⟨⟨5, 6⟩, none, none⟩ "r") "m"
      ⟨7, 8⟩).SpansNest := Node.spansNest_iff.2
    ⟨(by decide : 5 ≤ 8), List.forall_mem_singleton.2 ⟨rfl, hleaf (by decide)⟩⟩
  have hstubbed : (stubbed returned).SpansNest := Node.spansNest_iff.2
    ⟨(by decide : 5 ≤ 10), List.forall_mem_singleton.2 ⟨rfl, hselect⟩⟩
  have hwhen : (whenCall returned).SpansNest := Node.spansNest_iff.2
    ⟨(by decide : 0 ≤ 11), List.forall_mem_cons.2 ⟨⟨rfl, hleaf (by decide)⟩,
      List.forall_mem_singleton.2 ⟨rfl, hstubbed⟩⟩⟩
  have hselected : (thenReturn returned).SpansNest := Node.spansNest_iff.2
    ⟨(by decide : 0 ≤ 22), List.forall_mem_singleton.2 ⟨rfl, hwhen⟩⟩
  have hlast : 22 ≤ value.span.stop + 1 := by
    have hforward := hvalue.start_le_stop
    omega
  refine Node.spansNest_iff.2 ⟨Nat.zero_le _, List.forall_mem_cons.2 ⟨⟨?_, hselected⟩,
    List.forall_mem_singleton.2 ⟨?_, hvalue⟩⟩⟩
  · exact Bool.and_eq_true_iff.2 ⟨rfl, decide_eq_true hlast⟩
  · exact Bool.and_eq_true_iff.2 ⟨decide_eq_true (Nat.zero_le _), decide_eq_true (Nat.le_succ _)⟩

theorem recognise?_stubbing :
    (migrationBy pair text).recognise? (whenPlace returned value).node
      (whenPlace returned value).above = some (stubbingSite returned value) := rfl

/-- The call of `when` is migrated where the values are converted. -/
theorem exists_migrate_whenCall {above : List Ancestor} {values : List Node} {span : Span}
    {fix : Fix} (hpair : (migrationBy pair text).pair? returned = some pair)
    (hsite : (migrationBy pair text).recognise? (whenCall returned) above =
      some ⟨stubbed returned, values, span, false⟩)
    (hfresh : alreadyMigrated above "m_migrated" = false)
    (hcallbacks : values.any (migrationBy pair text).isCallback = false)
    (hfix : (migrationBy pair text).convertAll pair.forward values = .ok fix) :
    ∃ finding,
      (migrationBy pair text).migrate (whenCall returned) above = .ok (some finding) ∧
      finding.edits.Perm (⟨⟨7, 8⟩, "m_migrated"⟩ :: fix.edits) := by
  have hcounterpart : (migrationBy pair text).hasCounterpart (stubbedMethod returned) = true := by
    have hoccurs : occursIn "_migrated".toList "this.m_migrated()".toList = true := by
      decide +kernel
    exact hoccurs
  let site : CallSite := ⟨stubbed returned, values, span, false⟩
  have hmigrate : (migrationBy pair text).migrateSite site (stubbedMethod returned) above =
      .ok (some (found pair.name site
        ((migrationBy pair text).siteFix site (stubbedMethod returned) fix))) :=
    (migrateSite_eq_ok_some_iff rfl).2
      ⟨hcounterpart, hfresh, hcallbacks, pair, fix, hpair, hfix, rfl⟩
  exact ⟨_, migrate_eq_ok_some_iff.2 ⟨site, stubbedMethod returned, hsite, rfl, hmigrate⟩,
    edits_found_siteFix pair.name (stubbedMethod returned) fix⟩

theorem migrate_stubbing (hpair : (migrationBy pair text).pair? returned = some pair)
    (hcallback : (migrationBy pair text).isCallback value = false) {fix : Fix}
    (hfix : (migrationBy pair text).convert pair.forward value = .ok fix) :
    ∃ finding, (migrationBy pair text).migrate (whenPlace returned value).node
        (whenPlace returned value).above = .ok (some finding) ∧
      finding.edits.Perm (⟨⟨7, 8⟩, "m_migrated"⟩ :: fix.edits) := by
  have hall : (migrationBy pair text).convertAll pair.forward [value] = .ok (fix.merge .empty) := by
    rw [convertAll, hfix]
    rfl
  have hcallbacks : [value].any (migrationBy pair text).isCallback = false := by
    rw [List.any_cons, hcallback]
    rfl
  have hedits : (fix.merge .empty).edits = fix.edits := List.append_nil _
  exact hedits ▸ exists_migrate_whenCall hpair recognise?_stubbing rfl hcallbacks hall

/-- A value that the forward rule does not apply to has no edits. -/
theorem exists_of_not_applies {m : CallSiteMigration} {rule : Rule}
    (h : ∀ visit i, ¬ (m.valueScan rule).Applies value visit rule i) :
    ∃ fix, m.convert rule value = .ok fix ∧ fix.edits = [] := by
  have hfindings : (m.valueScan rule).findings value = .ok [] := by
    refine Scan.findings_eq_ok_nil fun visit rule' i happlies => ?_
    obtain rfl := List.mem_singleton.1 happlies.scanned
    exact h visit i happlies
  have hconvert : m.convert rule value =
      (m.valueScan rule).findings value >>= fun found =>
        pure ((Finding.selectCompatible found).foldl
          (fun fix f => fix.merge (f.preferredFix?.getD .empty)) .empty) := rfl
  rw [hfindings] at hconvert
  refine ⟨_, hconvert, ?_⟩
  simp [Fix.empty, Finding.selectCompatible, Finding.keep]

/-- **A stubbing of a value that the rule does not apply to** is renamed alone. -/
theorem renamesAlone_stubbing (hvalidated : pair.IsValidated) (hevery : pair.TakesEveryValue)
    (hpair : (migrationBy pair text).pair? returned = some pair)
    (hcallback : (migrationBy pair text).isCallback value = false)
    (happlies : ∀ visit i,
      ¬ ((migrationBy pair text).valueScan pair.forward).Applies value visit pair.forward i)
    (hspans : value.SpansNest) (hstart : 22 ≤ value.span.start)
    (hexpr : value.skipParens.isExpression = true) (hty : value.skipParens.ty? = some ty)
    (haccepts : (migrationBy pair text).oracle.accepts pair.typeFrom ty = true) :
    (migrationBy pair text).RenamesAlone (stubbing returned value) := by
  obtain ⟨fix, hfix, hnone⟩ := exists_of_not_applies happlies
  obtain ⟨finding, hfinding, hedits⟩ := migrate_stubbing hpair hcallback hfix
  refine ⟨hasPairsOfValues_migrationBy hvalidated hevery, spansNest_stubbing hspans hstart,
    whenPlace returned value, mem_places_stubbing, stubbingSite returned value,
    stubbedMethod returned, pair, finding, recognise?_stubbing, rfl, rfl, hpair, hfinding, value,
    List.mem_singleton_self _, hexpr, ⟨ty, hty, haccepts⟩, fun e he => ?_⟩
  -- The only edit is the renaming, which ends before the value.
  rw [hedits.mem_iff, hnone] at he
  obtain rfl := List.mem_singleton.1 he
  have hcore : value.skipParens.SpansNest := hspans.of_stands (.skipParens .root)
  have hwithin := hspans.within (.skipParens .root)
  have hforward := hcore.start_le_stop
  refine Bool.and_eq_false_iff.2 (.inr (decide_eq_false ?_))
  dsimp only
  omega

end

/-! ## A value that is converted -/

/-- Values of this class are converted. -/
def oldTy : Ty := .plain "com.example.Old"

/-- The value `x`. -/
def plainValue : Node := .ident ⟨⟨23, 24⟩, some oldTy, none⟩ "x"

theorem scanVisits_ident (info : NodeInfo) (name : String) :
    (Node.ident info name).scanVisits = [⟨.ident info name, []⟩] := by
  simp [Node.scanVisits, Node.scanVisitsUnder_eq, Node.scanChildren, Node.children]

/-- A name is converted when the rule does not fail there. -/
theorem exists_convert_ident {m : CallSiteMigration} {rule : Rule} {info : NodeInfo}
    {name : String}
    (h : (ScanLog.inOrder [(m.valueScan rule).evaluate ⟨.ident info name, []⟩ rule]).failure =
      none) :
    ∃ fix, m.convert rule (.ident info name) = .ok fix := by
  have hrun : ((m.valueScan rule).run (.ident info name)).failure = none := by
    rw [Scan.run, scanVisits_ident]
    exact h
  exact ⟨_, bind_eq_ok_iff.2 ⟨_, Scan.findings_eq_ok hrun, rfl⟩⟩

theorem exists_convert_plainValue : ∃ fix, (migrationBy (toNew oldTy oldTy none) "x").convert
    (toNew oldTy oldTy none).forward plainValue = .ok fix :=
  exists_convert_ident (by decide +kernel)

theorem not_spares_plainValue : ¬ (migrationBy (toNew oldTy oldTy none) "x").Spares
    (toNew oldTy oldTy none).forward plainValue := by
  intro hspares
  cases hspares with
  | comment _ hslice hcomment =>
    have hx : (⟨23, 24⟩ : Span).slice? ("when(r.m()).thenReturn(" ++ "x" ++ ")") = some "x" := by
      decide +kernel
    obtain rfl := Option.some.inj (hx.symm.trans hslice)
    exact absurd hcomment (by decide +kernel)
  | guard ht hp hguard _ =>
    obtain rfl := List.mem_singleton.1 ht
    obtain rfl := List.mem_singleton.1 hp
    exact absurd hguard nofun
  | result ht hp _ hne _ _ _ =>
    obtain rfl := List.mem_singleton.1 ht
    obtain rfl := List.mem_singleton.1 hp
    exact hne rfl

/-- So `x` becomes `x.toNew()` where `r.m()` becomes `r.m_migrated()`. -/
theorem exists_edit_stubbing_plainValue :
    ∃ finding, (migrationBy (toNew oldTy oldTy none) "x").migrate
        (whenPlace oldTy plainValue).node (whenPlace oldTy plainValue).above =
          .ok (some finding) ∧
      ⟨⟨7, 8⟩, "m_migrated"⟩ ∈ finding.edits ∧ ∃ e ∈ finding.edits, e.span = ⟨23, 24⟩ := by
  obtain ⟨fix, hfix⟩ := exists_convert_plainValue
  have hpair : (migrationBy (toNew oldTy oldTy none) "x").pair? oldTy =
      some (toNew oldTy oldTy none) := rfl
  obtain ⟨finding, hfinding, -⟩ := migrate_stubbing hpair rfl hfix
  have hspans : (stubbing oldTy plainValue).SpansNest :=
    spansNest_stubbing (Node.spansNest_iff.2 ⟨(by decide : 23 ≤ 24), nofun⟩) (by decide)
  have hpairs : (migrationBy (toNew oldTy oldTy none) "x").HasPairsOfValues :=
    hasPairsOfValues_migrationBy rfl ⟨_, _, rfl, rfl, rfl⟩
  obtain ⟨method, pair, conversions, hmethod, hpair, hedits, -, hvalues⟩ :=
    exists_conversions_of_migrate hspans hpairs mem_places_stubbing recognise?_stubbing rfl hfinding
  obtain rfl := Option.some.inj hmethod
  obtain rfl := Option.some.inj hpair
  have hvalue := hvalues plainValue (List.mem_singleton_self _) oldTy rfl rfl rfl
  rcases hvalue with ⟨e, he, hspan⟩ | hspares
  · exact ⟨finding, hfinding, hedits.mem_iff.2 List.mem_cons_self, e,
      hedits.mem_iff.2 (List.mem_cons_of_mem _ he), hspan⟩
  · exact absurd hspares not_spares_plainValue

/-! ## Three values that are spared -/

/-- The value `f(/**/)`. -/
def commented : Node := .call ⟨⟨23, 30⟩, some oldTy, none⟩ (.ident ⟨⟨23, 24⟩, none, none⟩ "f") []

/-- The value `(x)`. -/
def parenthesized : Node :=
  .paren ⟨⟨23, 26⟩, some oldTy, none⟩ (.ident ⟨⟨24, 25⟩, some oldTy, none⟩ "x")

/-- Maps between types. -/
def mapTy (key value : Ty) : Ty := .named "java.util.Map" [key, value]

/-- A type variable without bounds. -/
def freeVar (name : String) : Ty := .var name none none

/-- The type `Map<String, Integer>`. -/
def entriesTy : Ty := mapTy (.plain "java.lang.String") (.plain "java.lang.Integer")

/-- The value `x` of that type. -/
def entries : Node := .ident ⟨⟨23, 24⟩, some entriesTy, none⟩ "x"

theorem scanVisits_commented : commented.scanVisits =
    [⟨commented, []⟩, ⟨.ident ⟨⟨23, 24⟩, none, none⟩ "f", [commented]⟩] := by
  simp [Node.scanVisits, Node.scanVisitsUnder_eq, commented, Node.scanChildren, Node.children]

theorem scanVisits_parenthesized : parenthesized.scanVisits =
    [⟨parenthesized, []⟩,
      ⟨.ident ⟨⟨24, 25⟩, some oldTy, none⟩ "x", [parenthesized]⟩] := by
  simp [Node.scanVisits, Node.scanVisitsUnder_eq, parenthesized, Node.scanChildren, Node.children]

theorem not_applies_commented (visit : Visit) (i : Instance) :
    ¬ ((migrationBy (toNew oldTy oldTy none) "f(/**/)").valueScan
      (toNew oldTy oldTy none).forward).Applies commented visit
        (toNew oldTy oldTy none).forward i := by
  intro happlies
  have hvisited := happlies.visited
  rw [scanVisits_commented, List.mem_cons, List.mem_singleton] at hvisited
  rcases hvisited with rfl | rfl
  · -- The call is matched, and then its comment is seen.
    obtain rfl := List.mem_singleton.1 happlies.matched
    exact absurd happlies.accepted (by decide +kernel)
  · exact absurd happlies.matched List.not_mem_nil

theorem not_applies_parenthesized (visit : Visit) (i : Instance) :
    ¬ ((migrationBy (toNew oldTy oldTy (some .parentIsReturn)) "(x)").valueScan
      (toNew oldTy oldTy (some .parentIsReturn)).forward).Applies parenthesized visit
        (toNew oldTy oldTy (some .parentIsReturn)).forward i := by
  intro happlies
  have hvisited := happlies.visited
  rw [scanVisits_parenthesized, List.mem_cons, List.mem_singleton] at hvisited
  rcases hvisited with rfl | rfl
  · exact absurd happlies.matched List.not_mem_nil
  · exact absurd happlies.matched List.not_mem_nil

/-- A pair whose Before-Template takes a map from `S` to `U` and returns one from
`T` to `T`. Variables count as equal where their bounds are. -/
def mapToNew : MigrationPair :=
  toNew (mapTy (freeVar "S") (freeVar "U")) (mapTy (freeVar "T") (freeVar "T")) none

theorem not_applies_entries (visit : Visit) (i : Instance) :
    ¬ ((migrationBy mapToNew "x").valueScan mapToNew.forward).Applies entries visit
        mapToNew.forward i := by
  intro happlies
  have hvisited := happlies.visited
  rw [entries, scanVisits_ident, List.mem_singleton] at hvisited
  obtain rfl := hvisited
  exact absurd happlies.matched List.not_mem_nil

/-- **So a method may be renamed alone**: where there is a comment in the value,
where the rule has a guard and the value stands in parentheses, and where the
Before-Template returns another type than it takes. -/
theorem renamesAlone_stubbings :
    (migrationBy (toNew oldTy oldTy none) "f(/**/)").RenamesAlone (stubbing oldTy commented) ∧
      (migrationBy (toNew oldTy oldTy (some .parentIsReturn)) "(x)").RenamesAlone
        (stubbing oldTy parenthesized) ∧
      (migrationBy mapToNew "x").RenamesAlone (stubbing entriesTy entries) := by
  have hleaf {info : NodeInfo} {name : String} (h : info.span.start ≤ info.span.stop) :
      (Node.ident info name).SpansNest := Node.spansNest_iff.2 ⟨h, nofun⟩
  refine ⟨?_, ?_, ?_⟩
  · refine renamesAlone_stubbing rfl ⟨_, _, rfl, rfl, rfl⟩ rfl rfl not_applies_commented ?_
      (by decide) rfl rfl rfl
    exact Node.spansNest_iff.2 ⟨(by decide : 23 ≤ 30),
      List.forall_mem_singleton.2 ⟨rfl, hleaf (by decide)⟩⟩
  · refine renamesAlone_stubbing rfl ⟨_, _, rfl, rfl, rfl⟩ rfl rfl not_applies_parenthesized ?_
      (by decide) rfl rfl rfl
    exact Node.spansNest_iff.2 ⟨(by decide : 23 ≤ 26),
      List.forall_mem_singleton.2 ⟨rfl, hleaf (by decide)⟩⟩
  · exact renamesAlone_stubbing rfl ⟨_, _, rfl, rfl, rfl⟩ rfl rfl not_applies_entries
      (hleaf (by decide)) (by decide) rfl rfl rfl

end CallSiteMigration

end Codemod
