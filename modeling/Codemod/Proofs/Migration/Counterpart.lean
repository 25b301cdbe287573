import Codemod.Proofs.Migration.Arrangement
/-!
# Migrated counterparts

A method is renamed to its own name with the suffix of migrated counterparts,
if the replacement that its declaration gives has the suffix in it. Then some
word of the replacement has, and that word may be the name of another
counterpart: `find` is renamed to `find_migrated` although its replacement calls
`other_migrated` (`CallSiteMigration.exists_renames_unnamed`). Only where no
other word has the suffix in it does the replacement name the counterpart
(`CallSiteMigration.exists_replacement_of_mem_findings`).
-/

namespace Codemod

namespace CallSiteMigration

variable {m : CallSiteMigration} {root : Node} {f : Finding} {fs : List Finding}

/-! ## Words -/

/-- The words of a text: what stands between the characters that are not part of
words. -/
def words (part : Char → Bool) (text : List Char) : List (List Char) :=
  text.splitOnP fun c => !part c

variable {part : Char → Bool} {c : Char} {s text word : List Char}

theorem words_cons_of_part (h : part c = true) (text : List Char) :
    words part (c :: text) = (words part text).modifyHead (c :: ·) := by
  rw [words, List.splitOnP_cons_eq_if_modifyHead, if_neg (by simp [h])]
  rfl

theorem words_cons_of_not_part (h : part c = false) (text : List Char) :
    words part (c :: text) = [] :: words part text := by
  rw [words, List.splitOnP_cons_eq_if_modifyHead, if_pos (by simp [h])]
  rfl

/-- What a text begins with is the beginning of its first word. -/
theorem exists_first_word (hs : ∀ c ∈ s, part c = true) (h : s <+: text) :
    ∃ word rest, words part text = word :: rest ∧ s <+: word := by
  induction s generalizing text with
  | nil =>
    obtain ⟨word, rest, hwords⟩ := List.exists_cons_of_ne_nil (List.splitOnP_ne_nil _ text)
    exact ⟨word, rest, hwords, List.nil_prefix⟩
  | cons c s ih =>
    obtain ⟨hc, hs⟩ := List.forall_mem_cons.1 hs
    obtain ⟨more, rfl⟩ := h
    obtain ⟨word, rest, hwords, hprefix⟩ := ih hs (List.prefix_append s more)
    refine ⟨c :: word, rest, ?_, List.cons_prefix_cons.2 ⟨rfl, hprefix⟩⟩
    rw [List.cons_append, words_cons_of_part hc, hwords]
    rfl

/-- **What occurs in a text occurs in a word of it**, if words may have all of it
in them. -/
theorem exists_mem_words_of_infix (hs : ∀ c ∈ s, part c = true) (h : s <:+: text) :
    ∃ word ∈ words part text, s <:+: word := by
  induction text with
  | nil =>
    obtain rfl := List.infix_nil.1 h
    exact ⟨[], List.mem_singleton_self _, List.nil_infix⟩
  | cons c text ih =>
    rcases List.infix_cons_iff.1 h with hprefix | hinfix
    · obtain ⟨word, rest, hwords, hword⟩ := exists_first_word hs hprefix
      exact ⟨word, hwords ▸ List.mem_cons_self, hword.isInfix⟩
    · obtain ⟨word, hmem, hword⟩ := ih hinfix
      cases hc : part c with
      | false =>
        rw [words_cons_of_not_part hc]
        exact ⟨word, List.mem_cons_of_mem _ hmem, hword⟩
      | true =>
        rw [words_cons_of_part hc]
        cases hwords : words part text with
        | nil => exact absurd hwords (List.splitOnP_ne_nil _ text)
        | cons first rest =>
          rw [hwords] at hmem
          rcases List.mem_cons.1 hmem with rfl | hmem
          · exact ⟨c :: word, List.mem_cons_self, hword.trans (List.suffix_cons c word).isInfix⟩
          · exact ⟨word, List.mem_cons_of_mem _ hmem, hword⟩

theorem occursIn_iff : occursIn s text = true ↔ s <:+: text := by
  induction text with
  | nil => rw [occursIn, List.isEmpty_iff, List.infix_nil]
  | cons c text ih =>
    rw [occursIn, Bool.or_eq_true, ih, List.isPrefixOf_iff_prefix, List.infix_cons_iff]

/-- **A method has a counterpart** if its replacement has the suffix in it. -/
theorem hasCounterpart_iff {method : MethodSymbol} :
    m.hasCounterpart method = true ↔ ∃ replacement, method.inlineReplacement = some replacement ∧
      m.conventions.migratedSuffix.toList <:+: replacement.toList := by
  unfold hasCounterpart
  cases method.inlineReplacement with
  | none => simp
  | some replacement => simp [occursIn_iff]

/-! ## Renamings -/

/-- The finding is that of a call site in the tree, where it gives the method the
name of its counterpart. -/
def Renames (m : CallSiteMigration) (root : Node) (f : Finding) (method : MethodSymbol) : Prop :=
  ∃ place ∈ root.places, ∃ site, m.recognise? place.node place.above = some site ∧
    site.target.methodSymbol? = some method ∧ f.span = site.span ∧
    ⟨nameSpan site.target, m.conventions.migratedName method⟩ ∈ f.edits

/-- A call site is only migrated by such a renaming. -/
theorem of_migrateSite {site : CallSite} {method : MethodSymbol} {above : List Ancestor}
    (h : m.migrateSite site method above = .ok (some f)) :
    m.hasCounterpart method = true ∧ f.span = site.span ∧
      ⟨nameSpan site.target, m.conventions.migratedName method⟩ ∈ f.edits := by
  cases hrename : site.renameOnly with
  | true =>
    obtain ⟨hcounterpart, rfl⟩ := (migrateSite_eq_ok_some_iff_of_renameOnly hrename).1 h
    exact ⟨hcounterpart, rfl, List.mem_singleton_self _⟩
  | false =>
    obtain ⟨hcounterpart, -, -, pair, fix, -, -, rfl⟩ := (migrateSite_eq_ok_some_iff hrename).1 h
    exact ⟨hcounterpart, rfl, (edits_found_siteFix _ _ _).mem_iff.2 List.mem_cons_self⟩

/-- **Every finding renames a method whose replacement has the suffix in it.** The
replacement names the counterpart, unless it has the suffix in another word. -/
theorem exists_replacement_of_mem_findings (h : m.findings root = .ok fs) (hf : f ∈ fs) :
    ∃ method replacement, m.Renames root f method ∧
      method.inlineReplacement = some replacement ∧
      ∀ part : Char → Bool, (∀ c ∈ m.conventions.migratedSuffix.toList, part c = true) →
        (m.conventions.migratedName method).toList ∈ words part replacement.toList ∨
          ∃ word ∈ words part replacement.toList,
            m.conventions.migratedSuffix.toList <:+: word ∧
              word ≠ (m.conventions.migratedName method).toList := by
  obtain ⟨place, hplace, hmigrate⟩ := exists_place_of_mem_findings h hf
  obtain ⟨site, method, hsite, hmethod, hsiteFinding⟩ := migrate_eq_ok_some_iff.1 hmigrate
  obtain ⟨hcounterpart, hspan, hrename⟩ := of_migrateSite hsiteFinding
  obtain ⟨replacement, hreplacement, hsuffix⟩ := hasCounterpart_iff.1 hcounterpart
  refine ⟨method, replacement, ⟨place, hplace, site, hsite, hmethod, hspan, hrename⟩,
    hreplacement, fun part hpart => ?_⟩
  obtain ⟨word, hword, hinfix⟩ := exists_mem_words_of_infix hpart hsuffix
  by_cases hname : word = (m.conventions.migratedName method).toList
  · exact .inl (hname ▸ hword)
  · exact .inr ⟨word, hword, hinfix, hname⟩

/-! ## A verification

Offsets are those of the text `verify(repo).find()`. -/

/-- The method `find`, by what its declaration is replaced. -/
def verifiedMethod (replacement : String) : MethodSymbol :=
  ⟨"com.example.Repository", "find", false, .plain "int", [], some replacement⟩

/-- The call `verify(repo)`. -/
def verifyCall : Node :=
  .call ⟨⟨0, 12⟩, none, some (.ofMethod
      ⟨"org.mockito.Mockito", "verify", true, .plain "java.lang.Object", [], none⟩)⟩
    (.ident ⟨⟨0, 6⟩, none, none⟩ "verify") [.ident ⟨⟨7, 11⟩, none, none⟩ "repo"]

/-- The method selected on it. -/
def verifySelect : Node := .select ⟨⟨0, 17⟩, none, none⟩ verifyCall "find" ⟨13, 17⟩

/-- The call `verify(repo).find()`. -/
def verification (replacement : String) : Node :=
  .call ⟨⟨0, 19⟩, none, some (.ofMethod (verifiedMethod replacement))⟩ verifySelect []

/-- The migration of it, for which no pair is needed. -/
def verificationMigration : CallSiteMigration :=
  ⟨[], Hierarchy.javaLang.oracle, "verify(repo).find()", .standard⟩

/-- The place of `verify` in it. -/
def verifyPlace (replacement : String) : Place :=
  ⟨verifyCall, [⟨verifySelect, 0⟩, ⟨verification replacement, 0⟩]⟩

section

variable {replacement : String} {method : MethodSymbol}

theorem places_verification : (verification replacement).places =
    [⟨verification replacement, []⟩, ⟨verifySelect, [⟨verification replacement, 0⟩]⟩] ++
      verifyPlace replacement ::
      [⟨.ident ⟨⟨0, 6⟩, none, none⟩ "verify", ⟨verifyCall, 0⟩ :: (verifyPlace replacement).above⟩,
        ⟨.ident ⟨⟨7, 11⟩, none, none⟩ "repo",
          ⟨verifyCall, 1⟩ :: (verifyPlace replacement).above⟩] := by
  simp only [Node.places, verification, verifySelect, verifyCall, Node.placesUnder_call,
    Node.placesUnder_select, Node.placesUnder_ident, List.zipIdx_cons, List.zipIdx_nil,
    List.flatMap_cons, List.flatMap_nil]
  rfl

/-- Nothing but `find` is renamed in it. -/
theorem eq_of_renames_verification
    (h : verificationMigration.Renames (verification replacement) f method) :
    method = verifiedMethod replacement := by
  obtain ⟨place, hplace, site, hsite, hmethod, -⟩ := h
  rw [places_verification] at hplace
  simp only [List.cons_append, List.nil_append, List.mem_cons, List.not_mem_nil, or_false]
    at hplace
  rcases hplace with rfl | rfl | rfl | rfl | rfl
  · exact absurd hsite nofun
  · exact absurd hsite nofun
  · obtain rfl := Option.some.inj hsite
    exact (Option.some.inj hmethod).symm
  · exact absurd hsite nofun
  · exact absurd hsite nofun

/-- It is renamed wherever the suffix occurs in its replacement. -/
theorem exists_findings_verification (h : "_migrated".toList <:+: replacement.toList) :
    ∃ f, verificationMigration.findings (verification replacement) = .ok [f] ∧
      verificationMigration.Renames (verification replacement) f (verifiedMethod replacement) := by
  let f : Finding := found renameRuleName ⟨verification replacement, [], ⟨0, 19⟩, true⟩
    (.ofEdits [⟨⟨13, 17⟩, "find_migrated"⟩])
  have hsite : verificationMigration.recognise? (verifyPlace replacement).node
      (verifyPlace replacement).above = some ⟨verification replacement, [], ⟨0, 19⟩, true⟩ := rfl
  have hcounterpart : verificationMigration.hasCounterpart (verifiedMethod replacement) = true :=
    hasCounterpart_iff.2 ⟨replacement, rfl, h⟩
  have hmigrate : verificationMigration.migrate (verifyPlace replacement).node
      (verifyPlace replacement).above = .ok (some f) :=
    migrate_eq_ok_some_iff.2 ⟨_, verifiedMethod replacement, hsite, rfl,
      (migrateSite_eq_ok_some_iff_of_renameOnly rfl).2 ⟨hcounterpart, rfl⟩⟩
  have hselected : Finding.selectCompatible [f] = [f] := by
    simp [Finding.selectCompatible, Finding.keep]
  refine ⟨f, ?_, verifyPlace replacement, ?_, _, hsite, rfl, rfl, List.mem_singleton_self _⟩
  · rw [← hselected]
    refine findings_of_places places_verification ?_ hmigrate
    simp only [List.cons_append, List.nil_append, List.forall_mem_cons]
    exact ⟨rfl, rfl, rfl, rfl, List.forall_mem_nil _⟩
  · rw [places_verification]
    simp

end

/-- Letters, digits and low lines are part of words. -/
def isWordPart (c : Char) : Bool := c.isAlphanum || c == '_'

/-- Where `find` is replaced by a call of `find_migrated`, that is the only word with
the suffix in it. -/
theorem names_counterpart_verification :
    ∃ f, verificationMigration.findings (verification "this.find_migrated()") = .ok [f] ∧
      verificationMigration.Renames (verification "this.find_migrated()") f
        (verifiedMethod "this.find_migrated()") ∧
      "find_migrated".toList ∈ words isWordPart "this.find_migrated()".toList := by
  obtain ⟨f, hf, -⟩ := exists_findings_verification
    (show "_migrated".toList <:+: "this.find_migrated()".toList by decide +kernel)
  obtain ⟨method, replacement, hrenames, hreplacement, hwords⟩ :=
    exists_replacement_of_mem_findings hf (List.mem_singleton_self f)
  obtain rfl := eq_of_renames_verification hrenames
  obtain rfl := Option.some.inj hreplacement
  have hpart : "_migrated".toList.all isWordPart = true := by decide +kernel
  have honly : ∀ word ∈ words isWordPart "this.find_migrated()".toList,
      "_migrated".toList <:+: word → word = "find_migrated".toList := by
    decide +kernel
  refine ⟨f, hf, hrenames, ?_⟩
  rcases hwords isWordPart (List.all_eq_true.1 hpart) with hnamed | ⟨word, hword, hinfix, hne⟩
  · exact hnamed
  · exact absurd (honly word hword hinfix) hne

/-- **A method may be renamed to a counterpart that its replacement does not
name**: `find` becomes `find_migrated` where it is replaced by a call of
`other_migrated`. -/
theorem exists_renames_unnamed :
    ∃ f, verificationMigration.findings (verification "this.other_migrated()") = .ok [f] ∧
      verificationMigration.Renames (verification "this.other_migrated()") f
        (verifiedMethod "this.other_migrated()") ∧
      verificationMigration.conventions.migratedName (verifiedMethod "this.other_migrated()") =
        "find_migrated" ∧
      "find_migrated".toList ∉ words isWordPart "this.other_migrated()".toList ∧
      ¬ "find_migrated".toList <:+: "this.other_migrated()".toList := by
  obtain ⟨f, hf, hrenames⟩ := exists_findings_verification
    (show "_migrated".toList <:+: "this.other_migrated()".toList by decide +kernel)
  exact ⟨f, hf, hrenames, by decide +kernel, by decide +kernel, by decide +kernel⟩

end CallSiteMigration

end Codemod
