import Codemod.Migration.CallSite
import Codemod.Proofs.Blob.Artifact
import Codemod.Proofs.Files.Directory
import Codemod.Proofs.Store.RuleSet
import Codemod.Store.Loader
import Codemod.Types.Hierarchy
import Mathlib.Data.List.Nodup
/-!
# Rule sets in directories

A set that is written to an empty directory is loaded from there as a set with
the same rules and pairs. The directory is listed by file name, so that is the
order they come in (`RuleSet.filed`), whatever order they were added in.
-/

namespace Codemod

namespace MigrationPair

/-- The name of the file that the pair is written to. -/
def fileName (p : MigrationPair) : String := Suffixes.standard.fileName (.migration p)

end MigrationPair

open FileTree

variable {tree : FileTree} {directory : String} {files : Dict Bytes} {s : RuleSet}

namespace RuleSet

/-- The artifact can be written to a file of the directory. -/
@[mk_iff]
structure IsStorable (directory : String) (a : Artifact) : Prop where
  fits : Blob.ArtifactFits a
  isFileName : IsFileName (Suffixes.standard.fileName a)
  counted : (FileAccess.join directory (Suffixes.standard.fileName a)).utf8ByteSize ≤ maxPath

instance : DecidablePred (IsStorable directory) := fun a =>
  decidable_of_iff' _ (isStorable_iff directory a)

/-- **Artifacts are written to files of their names.** -/
theorem writeAll_of_holds {artifacts : List Artifact} (h : tree.Holds directory files)
    (hstorable : ∀ a ∈ artifacts, IsStorable directory a) :
    ∃ tree', writeAll access directory .standard artifacts tree = (.ok (), tree') ∧
      tree'.Holds directory
        ((artifacts.map fun a => (Suffixes.standard.fileName a, Blob.encode a)).foldl
          (fun d entry => d.insert entry.1 entry.2) files) := by
  induction artifacts generalizing tree files with
  | nil => exact ⟨tree, rfl, h⟩
  | cons a rest ih =>
    obtain ⟨ha, hrest⟩ := List.forall_mem_cons.1 hstorable
    obtain ⟨mid, hwrite, hmid⟩ := h.writeFile ha.isFileName ha.counted (Blob.encode a)
    obtain ⟨tree', hlater, htree'⟩ := ih hmid hrest
    refine ⟨tree', ?_, htree'⟩
    rw [writeAll, bind_of_eq hwrite]
    exact hlater

/-- The artifacts by the names of their files. -/
def filed (s : RuleSet) : Dict Artifact :=
  Dict.ofList (s.artifacts.map fun a => (Suffixes.standard.fileName a, a))

/-- The files that the artifacts are written to. -/
def blobs (s : RuleSet) : Dict Bytes :=
  Dict.ofList (s.artifacts.map fun a => (Suffixes.standard.fileName a, Blob.encode a))

theorem nodup_fileNames (h : s.names.Nodup) :
    (s.artifacts.map Suffixes.standard.fileName).Nodup := by
  rw [names_eq_map] at h
  exact List.pairwise_map.2 ((List.pairwise_map.1 h).imp fun hne heq =>
    hne (Suffixes.name_eq_of_fileName_eq heq))

theorem entries_filed_perm (h : s.names.Nodup) :
    s.filed.entries.Perm (s.artifacts.map fun a => (Suffixes.standard.fileName a, a)) := by
  refine Dict.entries_ofList_perm ?_
  rw [List.map_map]
  exact nodup_fileNames h

/-- Every file holds the artifact that it is named for. -/
theorem entries_blobs (h : s.names.Nodup) :
    s.blobs.entries = s.filed.entries.map fun entry => (entry.1, Blob.encode entry.2) := by
  refine Dict.entries_eq_of_perm ?_ s.blobs.sorted ?_
  · refine (Dict.entries_ofList_perm ?_).trans ?_
    · rw [List.map_map]
      exact nodup_fileNames h
    · have hfiled := (entries_filed_perm h).map fun entry => (entry.1, Blob.encode entry.2)
      rw [List.map_map] at hfiled
      exact hfiled.symm
  · exact List.pairwise_map.2 s.filed.sorted

/-- **A set is written to an empty directory.** -/
theorem persist_of_holds (h : tree.Holds directory ∅)
    (hstorable : ∀ a ∈ s.artifacts, IsStorable directory a) :
    ∃ tree', s.persist access directory .standard tree = (.ok s.size, tree') ∧
      tree'.Holds directory s.blobs := by
  obtain ⟨tree', hwrite, htree'⟩ := writeAll_of_holds h hstorable
  refine ⟨tree', ?_, htree'⟩
  rw [persist, bind_of_eq h.createDirectory]
  dsimp only
  rw [bind_of_eq hwrite]
  rfl

end RuleSet

namespace Loader

/-- **A directory is listed by ascending name.** -/
theorem list_of_holds (h : tree.Holds directory files) {suffixes : List String}
    (hsuffixes : ∀ name ∈ files.keys,
      suffixes.any (fun suffix => suffix.toList.isSuffixOf name.toList) = true) :
    (ofDirectory access directory suffixes).list tree = (.ok files.keys, tree) := by
  obtain ⟨names, hnames, hperm⟩ := h.filesIn
  have hfilter : names.filter
      (fun name => suffixes.any fun suffix => suffix.toList.isSuffixOf name.toList) = names :=
    List.filter_eq_self.2 fun name hname => hsuffixes name (hperm.mem_iff.1 hname)
  have hsort : names.mergeSort (fun a b => decide (a ≤ b)) = files.keys := by
    have htrans (a b c : String) (hab : decide (a ≤ b) = true) (hbc : decide (b ≤ c) = true) :
        decide (a ≤ c) = true :=
      decide_eq_true (String.le_trans (of_decide_eq_true hab) (of_decide_eq_true hbc))
    have htotal (a b : String) : (decide (a ≤ b) || decide (b ≤ a)) = true := by
      simp [String.le_total a b]
    have hsorted := List.pairwise_mergeSort htrans htotal names
    refine ((List.mergeSort_perm names _).trans hperm).eq_of_pairwise (fun a b _ _ hab hba =>
      String.le_antisymm (of_decide_eq_true hab) (of_decide_eq_true hba)) hsorted ?_
    exact Dict.keys_sorted.imp fun hlt => decide_eq_true (Std.le_of_lt hlt)
  rw [ofDirectory]
  dsimp only
  rw [bind_of_eq hnames]
  show (Except.ok ((names.filter _).mergeSort _), tree) = _
  rw [hfilter, hsort]

theorem readRetrying_of_eq {loader : Loader (StateM FileTree)} {name : String} {bytes : Bytes}
    (h : loader.read name tree = (.ok bytes, tree)) (retries : Nat) :
    loader.readRetrying name retries tree = (.ok bytes, tree) := by
  cases retries with
  | zero => exact h
  | succ retries =>
    rw [readRetrying, bind_of_eq h]
    rfl

end Loader

namespace RuleStore

/-- The store over a directory. -/
def inDirectory (directory : String) (maxAttempts : Nat) : RuleStore (StateM FileTree) :=
  ⟨.ofDirectory access directory Suffixes.standard.all, maxAttempts⟩

variable {maxAttempts : Nat}

theorem artifact_of_holds (h : tree.Holds directory files) {a : Artifact}
    (ha : RuleSet.IsStorable directory a)
    (hfile : files.get? (Suffixes.standard.fileName a) = some (Blob.encode a)) :
    (inDirectory directory maxAttempts).artifact (Suffixes.standard.fileName a) tree =
      (.ok a, tree) := by
  have hread : (inDirectory directory maxAttempts).loader.read (Suffixes.standard.fileName a) tree =
      (.ok (Blob.encode a), tree) := h.readFile ha.isFileName ha.counted hfile
  rw [artifact, bind_of_eq (Loader.readRetrying_of_eq hread _)]
  show ((Blob.decode (Blob.encode a)).mapError _, tree) = _
  rw [Blob.decode_eq_ok_iff.2 ⟨List.prefix_rfl, ha.fits⟩]
  rfl

/-- **Artifacts are loaded as they are added.** -/
theorem loadAll_of_holds (h : tree.Holds directory files) {artifacts : List Artifact}
    (hstorable : ∀ a ∈ artifacts, RuleSet.IsStorable directory a)
    (hfiles : ∀ a ∈ artifacts,
      files.get? (Suffixes.standard.fileName a) = some (Blob.encode a)) (s : RuleSet) :
    (inDirectory directory maxAttempts).loadAll s
      (artifacts.map Suffixes.standard.fileName) tree = (s.addAll artifacts, tree) := by
  induction artifacts generalizing s with
  | nil => rfl
  | cons a rest ih =>
    obtain ⟨ha, hrest⟩ := List.forall_mem_cons.1 hstorable
    obtain ⟨hfile, hfiles⟩ := List.forall_mem_cons.1 hfiles
    have hadd : (Except.ok a).bind s.add = s.add a := rfl
    rw [List.map_cons, loadAll, bind_of_eq (artifact_of_holds h ha hfile), hadd, RuleSet.addAll,
      List.foldlM_cons]
    cases s.add a with
    | error e => rfl
    | ok s' => exact ih hrest hfiles s'

end RuleStore

namespace RuleSet

/-! ## Writing and loading -/

/-- The set in the order of the names of its files. -/
def inFileOrder (s : RuleSet) : RuleSet :=
  ⟨s.filed.values.filterMap Artifact.rule?, s.filed.values.filterMap Artifact.migration?⟩

theorem values_filed_perm (h : s.names.Nodup) : s.filed.values.Perm s.artifacts := by
  have hvalues := (entries_filed_perm h).map Prod.snd
  rw [List.map_map] at hvalues
  exact hvalues.trans (.of_eq (List.map_id _))

theorem keys_filed (h : s.names.Nodup) :
    s.filed.keys = s.filed.values.map Suffixes.standard.fileName := by
  rw [Dict.keys, Dict.values, List.map_map]
  refine List.map_congr_left fun entry hentry => ?_
  obtain ⟨a, -, rfl⟩ := List.mem_map.1 ((entries_filed_perm h).mem_iff.1 hentry)
  rfl

theorem keys_blobs (h : s.names.Nodup) : s.blobs.keys = s.filed.keys := by
  rw [Dict.keys, entries_blobs h, List.map_map]
  rfl

theorem get?_blobs (h : s.names.Nodup) {a : Artifact} (ha : a ∈ s.artifacts) :
    s.blobs.get? (Suffixes.standard.fileName a) = some (Blob.encode a) := by
  rw [← Dict.mem_entries_iff, entries_blobs h]
  refine List.mem_map.2 ⟨(Suffixes.standard.fileName a, a), ?_, rfl⟩
  exact (entries_filed_perm h).mem_iff.2 (List.mem_map.2 ⟨a, ha, rfl⟩)

theorem any_isSuffixOf_fileName (a : Artifact) :
    Suffixes.standard.all.any
      (fun suffix => suffix.toList.isSuffixOf (Suffixes.standard.fileName a).toList) = true := by
  cases a <;> simp [Suffixes.fileName, Suffixes.all]

/-- **What is loaded from the files of a set is the set in their order.** -/
theorem rules_of_holds (hnames : s.names.Nodup)
    (hstorable : ∀ a ∈ s.artifacts, IsStorable directory a)
    (h : tree.Holds directory s.blobs) (maxAttempts : Nat) :
    (RuleStore.inDirectory directory maxAttempts).rules none tree =
      ((.ok s.inFileOrder, some s.inFileOrder), tree) := by
  have hperm := values_filed_perm hnames
  have hkeys : s.blobs.keys = s.filed.values.map Suffixes.standard.fileName :=
    (keys_blobs hnames).trans (keys_filed hnames)
  have hlist : (RuleStore.inDirectory directory maxAttempts).loader.list tree =
      (.ok s.blobs.keys, tree) := by
    refine Loader.list_of_holds h fun name hname => ?_
    rw [hkeys] at hname
    obtain ⟨a, -, rfl⟩ := List.mem_map.1 hname
    exact any_isSuffixOf_fileName a
  have hadd : RuleSet.empty.addAll s.filed.values = .ok s.inFileOrder := by
    refine addAll_eq_ok ?_
    rw [names_eq_map] at hnames
    exact (hperm.map Artifact.name).nodup_iff.2 hnames
  have hload : (RuleStore.inDirectory directory maxAttempts).load tree =
      (.ok s.inFileOrder, tree) := by
    rw [RuleStore.load, bind_of_eq hlist, hkeys]
    refine (RuleStore.loadAll_of_holds h (fun a ha => hstorable a (hperm.mem_iff.1 ha))
      (fun a ha => get?_blobs hnames (hperm.mem_iff.1 ha)) .empty).trans ?_
    rw [hadd]
  rw [RuleStore.rules, bind_of_eq hload]
  rfl

/-! ## What is the same -/

/-- The sets are the same: their rules by name, and their pairs in order. -/
structure Same (s s' : RuleSet) : Prop where
  rules : ∀ name, s.rule? name = s'.rule? name
  migrations : s.migrations = s'.migrations

/-- The pairs are in the order of the names of their files. -/
def InFileOrder (pairs : List MigrationPair) : Prop :=
  pairs.Pairwise fun p q => p.fileName < q.fileName

section

variable {α : Type} {p : α → Bool} {l l' : List α}

/-- Where it is first does not matter for what is found if nothing else is. -/
theorem find?_eq_of_perm (h : l.Perm l') (hone : ∀ a ∈ l, ∀ b ∈ l, p a → p b → a = b) :
    l.find? p = l'.find? p := by
  cases hfirst : l.find? p with
  | none =>
    refine (List.find?_eq_none.2 fun a ha => ?_).symm
    exact List.find?_eq_none.1 hfirst a (h.mem_iff.2 ha)
  | some a =>
    have ha := List.mem_of_find?_eq_some hfirst
    have hpa := List.find?_some hfirst
    obtain ⟨b, hb⟩ := Option.isSome_iff_exists.1
      (List.find?_isSome.2 ⟨a, h.mem_iff.1 ha, hpa⟩)
    have hmem := h.mem_iff.2 (List.mem_of_find?_eq_some hb)
    rw [hb, hone a ha b hmem hpa (List.find?_some hb)]

/-- In a list by ascending key the first that is found has the least key. -/
theorem find?_eq_some_iff_le {key : α → String} (h : l.Pairwise fun a b => key a < key b) {a : α} :
    l.find? p = some a ↔ a ∈ l ∧ p a ∧ ∀ b ∈ l, p b → key a ≤ key b := by
  induction l with
  | nil => simp
  | cons first rest ih =>
    obtain ⟨hfirst, hrest⟩ := List.pairwise_cons.1 h
    cases hp : p first with
    | true =>
      rw [List.find?_cons_of_pos hp, Option.some.injEq]
      constructor
      · rintro rfl
        refine ⟨List.mem_cons_self, hp, fun b hb _ => ?_⟩
        rcases List.mem_cons.1 hb with rfl | hb
        · exact String.le_refl _
        · exact Std.le_of_lt (hfirst b hb)
      · rintro ⟨ha, -, hleast⟩
        rcases List.mem_cons.1 ha with rfl | ha
        · rfl
        · exact absurd (hleast first List.mem_cons_self hp) (String.not_le.2 (hfirst a ha))
    | false =>
      rw [List.find?_cons_of_neg (by simp [hp]), ih hrest]
      simp only [List.mem_cons, forall_eq_or_imp, hp, Bool.false_eq_true, false_imp_iff, true_and]
      constructor
      · rintro ⟨ha, hpa, hleast⟩
        exact ⟨.inr ha, hpa, hleast⟩
      · rintro ⟨rfl | ha, hpa, hleast⟩
        · exact absurd (hp.symm.trans hpa) nofun
        · exact ⟨ha, hpa, hleast⟩

end

theorem find?_name_eq {α : Type} {key : α → String} {l l' : List α} (h : l.Perm l')
    (hnodup : (l.map key).Nodup) (name : String) :
    l.find? (fun a => key a == name) = l'.find? (fun a => key a == name) := by
  refine find?_eq_of_perm h fun a ha b hb hka hkb => ?_
  exact List.inj_on_of_nodup_map hnodup ha hb ((eq_of_beq hka).trans (eq_of_beq hkb).symm)

theorem rules_inFileOrder_perm (h : s.names.Nodup) : s.inFileOrder.rules.Perm s.rules := by
  have hperm := (values_filed_perm h).filterMap Artifact.rule?
  rwa [filterMap_rule?_artifacts] at hperm

theorem migrations_inFileOrder_perm (h : s.names.Nodup) :
    s.inFileOrder.migrations.Perm s.migrations := by
  have hperm := (values_filed_perm h).filterMap Artifact.migration?
  rwa [filterMap_migration?_artifacts] at hperm

theorem migrations_inFileOrder (h : s.names.Nodup) : InFileOrder s.inFileOrder.migrations := by
  have hvalues : s.filed.values.Pairwise fun a b =>
      Suffixes.standard.fileName a < Suffixes.standard.fileName b :=
    List.pairwise_map.1 (keys_filed h ▸ Dict.keys_sorted)
  refine List.pairwise_filterMap.2 (hvalues.imp fun {a b} hlt p hp q hq => ?_)
  cases a with
  | rule r => exact absurd hp nofun
  | migration p' =>
    cases b with
    | rule r => exact absurd hq nofun
    | migration q' =>
      obtain rfl := Option.some.inj hp
      obtain rfl := Option.some.inj hq
      exact hlt

/-- In one order there is one list of the pairs. -/
theorem eq_of_perm_of_inFileOrder {pairs pairs' : List MigrationPair} (h : pairs.Perm pairs')
    (hpairs : InFileOrder pairs) (hpairs' : InFileOrder pairs') : pairs = pairs' :=
  h.eq_of_pairwise (fun _ _ _ _ hab hba => absurd (String.lt_trans hab hba)
    (String.lt_irrefl _)) hpairs hpairs'

/-- **A set that was written to an empty directory is loaded with the same
rules and the same pairs, the pairs in the order of the names of their files.**
So it is the same set exactly if they were in that order before. Of the pairs
that accept a type, the one whose file comes first is chosen, which is the one
that was chosen before if the pairs were in that order or no other accepts the
type. -/
theorem exists_rules_of_persist (hbuilt : Built s) (hempty : tree.Holds directory ∅)
    (hstorable : ∀ a ∈ s.artifacts, IsStorable directory a) (maxAttempts : Nat) :
    ∃ tree' loaded, s.persist access directory .standard tree = (.ok s.size, tree') ∧
      (RuleStore.inDirectory directory maxAttempts).rules none tree' =
        ((.ok loaded, some loaded), tree') ∧
      loaded.rules.Perm s.rules ∧ (∀ name, loaded.rule? name = s.rule? name) ∧
      loaded.migrations.Perm s.migrations ∧ InFileOrder loaded.migrations ∧
      (loaded.Same s ↔ InFileOrder s.migrations) ∧
      ∀ (m : CallSiteMigration) (returned : Ty),
        (∀ pair, { m with pairs := loaded.migrations }.pair? returned = some pair ↔
          pair ∈ s.migrations ∧ m.oracle.accepts pair.typeFrom returned ∧
            ∀ other ∈ s.migrations, m.oracle.accepts other.typeFrom returned →
              pair.fileName ≤ other.fileName) ∧
        ((∀ pair ∈ s.migrations, ∀ other ∈ s.migrations, m.oracle.accepts pair.typeFrom returned →
            m.oracle.accepts other.typeFrom returned → pair = other) →
          { m with pairs := loaded.migrations }.pair? returned =
            { m with pairs := s.migrations }.pair? returned) := by
  have hnames := hbuilt.nodup_names
  have hrules : (s.rules.map (·.name)).Nodup := (List.nodup_append.1 hnames).1
  have hperm := migrations_inFileOrder_perm hnames
  have horder := migrations_inFileOrder hnames
  obtain ⟨tree', hpersist, htree'⟩ := persist_of_holds hempty hstorable
  have hsame (name : String) : s.inFileOrder.rule? name = s.rule? name :=
    (find?_name_eq (rules_inFileOrder_perm hnames).symm hrules name).symm
  refine ⟨tree', s.inFileOrder, hpersist, rules_of_holds hnames hstorable htree' maxAttempts,
    rules_inFileOrder_perm hnames, hsame, hperm, horder, ⟨?_, ?_⟩, fun m returned => ⟨?_, ?_⟩⟩
  · rintro ⟨-, hmigrations⟩
    exact hmigrations ▸ horder
  · exact fun hpairs => ⟨hsame, eq_of_perm_of_inFileOrder hperm horder hpairs⟩
  · intro pair
    refine (find?_eq_some_iff_le horder).trans ?_
    simp only [hperm.mem_iff]
  · exact fun hone => (find?_eq_of_perm hperm.symm hone).symm

/-! ## Two conversions of one type -/

/-- The type of dates. -/
def dateTy : Ty := .plain "java.util.Date"

/-- A conversion of dates by one method, and back by another. -/
def dateTo (name target method : String) : MigrationPair where
  name := name
  forward :=
    { name := name ++ ".Forward"
      before := [⟨"before", [], [⟨"a", dateTy, none⟩], dateTy, .expr (.placeholder "a")⟩]
      after := [⟨"after", [], [⟨"a", dateTy, none⟩], .plain target,
        .expr (.call (.placeholder "a") ⟨"java.util.Date", method, false⟩ [])⟩]
      descriptor := .standard }
  backward :=
    { name := name ++ ".Backward"
      before := [⟨"before", [], [⟨"a", .plain target, none⟩], .plain target,
        .expr (.placeholder "a")⟩]
      after := [⟨"after", [], [⟨"a", .plain target, none⟩], dateTy,
        .expr (.call (.placeholder "a") ⟨target, "toDate", false⟩ [])⟩]
      descriptor := .standard }
  typeFrom := dateTy
  typeTo := .plain target

/-- Dates become instants. -/
def toInstant : MigrationPair := dateTo "InstantConversion" "java.time.Instant" "toInstant"

/-- Dates become days. -/
def toDay : MigrationPair := dateTo "DayConversion" "java.time.LocalDate" "toDay"

/-- The set to which the conversion to instants was added first. -/
def instantFirst : RuleSet := ⟨[], [toInstant, toDay]⟩

/-- An empty directory under the working directory. -/
def emptyRules : FileTree := Dict.ofList [("rules", .directory)]

theorem built_instantFirst : Built instantFirst :=
  .add (a := .migration toDay) (.add (a := .migration toInstant) .empty rfl) rfl

theorem isStorable_instantFirst : ∀ a ∈ instantFirst.artifacts, IsStorable "rules" a := by
  refine List.forall_mem_cons.2 ⟨?_, List.forall_mem_singleton.2 ?_⟩
  · decide +kernel
  · decide +kernel

theorem holds_emptyRules : emptyRules.Holds "rules" ∅ where
  names := nofun
  entries := by
    refine ⟨["rules"], by decide +kernel, rfl, fun name _ => ?_⟩
    have hbelow : pathText (["rules"] ++ [name]) ≠ "rules" := by
      rw [pathText_append (List.cons_ne_nil _ _)]
      intro h
      have hlength := congrArg (·.toList.length) h
      simp [pathText] at hlength
    show (Dict.empty.insert "rules" FileEntry.directory).get? _ = _
    rw [Dict.get?_insert, if_neg hbelow]
    rfl

theorem exists_rules_of_persist_instantFirst : ∃ tree' loaded,
    instantFirst.persist access "rules" .standard emptyRules = (.ok 2, tree') ∧
      (RuleStore.inDirectory "rules" 3).rules none tree' = ((.ok loaded, some loaded), tree') ∧
      loaded.migrations.Perm [toInstant, toDay] ∧ InFileOrder loaded.migrations := by
  obtain ⟨tree', loaded, hpersist, hrules, -, -, hperm, horder, -⟩ :=
    exists_rules_of_persist built_instantFirst holds_emptyRules isStorable_instantFirst 3
  exact ⟨tree', loaded, hpersist, hrules, hperm, horder⟩

/-- **A set need not be loaded as it was.** The pairs come in another order, and
dates are converted by another of them. -/
theorem exists_rules_ne_of_persist : ∃ tree' loaded,
    instantFirst.persist access "rules" .standard emptyRules = (.ok 2, tree') ∧
      (RuleStore.inDirectory "rules" 3).rules none tree' = ((.ok loaded, some loaded), tree') ∧
      Built instantFirst ∧ emptyRules.Holds "rules" ∅ ∧
      (∀ a ∈ instantFirst.artifacts, IsStorable "rules" a) ∧ ¬ loaded.Same instantFirst ∧
      ∀ m : CallSiteMigration, m.oracle = Hierarchy.javaLang.oracle →
        { m with pairs := instantFirst.migrations }.pair? dateTy = some toInstant ∧
          { m with pairs := loaded.migrations }.pair? dateTy = some toDay := by
  obtain ⟨tree', hpersist, htree'⟩ := persist_of_holds holds_emptyRules isStorable_instantFirst
  have hloaded : instantFirst.inFileOrder = ⟨[], [toDay, toInstant]⟩ := rfl
  have hrules := rules_of_holds built_instantFirst.nodup_names isStorable_instantFirst htree' 3
  rw [hloaded] at hrules
  refine ⟨tree', _, hpersist, hrules, built_instantFirst, holds_emptyRules,
    isStorable_instantFirst, fun hsame => ?_, fun m hm => ?_⟩
  · have hname := congrArg (List.map (·.name)) hsame.migrations
    exact absurd hname (by decide +kernel)
  · have haccepts : m.oracle.accepts dateTy dateTy = true := by
      rw [hm]
      decide +kernel
    exact ⟨List.find?_cons_of_pos haccepts, List.find?_cons_of_pos haccepts⟩

end RuleSet

end Codemod
