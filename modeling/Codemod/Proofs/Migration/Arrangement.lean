import Codemod.Proofs.Edit.Compatibility
import Codemod.Proofs.Migration.CallSite
import Codemod.Proofs.Scan.Extent
import Codemod.Proofs.Tree.Spacing
/-!
# Edits of call sites

In a laid out tree the parts of a call site that are edited lie apart: the name
of the method, and each value (`CallSiteMigration.isArranged_of_recognise?`).
After `when` the values are arguments of calls that follow one another
(`CallSiteMigration.chainSpacing`); before `when` they lie in what the method is
called on. What is converted in one value is selected so that it does not
conflict. So the edits of a call site never conflict, and the findings that are
selected of all call sites make a script
(`CallSiteMigration.exists_compose_findings`).
-/

namespace Codemod

open Outcome Text

/-- Edits of spans that lie apart do not conflict. -/
theorem Edit.not_conflictsWith_of_isBefore {a b : Edit} (ha : a.span.start ≤ a.span.stop)
    (h : a.span.IsBefore b.span) : a.conflictsWith b = false := by
  have hlt : a.span.stop < b.span.start := h
  have hnot : ¬ b.span.precedes a.span = true := by
    rw [Span.precedes_iff]
    omega
  rw [conflictsWith, if_neg hnot]
  split
  · rfl
  split
  · rw [beq_eq_false_iff_ne]
    omega
  · rw [decide_eq_false_iff_not]
    omega

namespace CallSiteMigration

variable {m : CallSiteMigration} {source : String} {root n : Node} {depth : Nat}

/-! ## The name of the method -/

theorem nameSpan_select {info info' : NodeInfo} {target : Node} {name : String} {span : Span}
    {args : List Node} (h : (Node.select info' target name span).PlacedIn source depth) :
    nameSpan (.call info (.select info' target name span) args) = span := by
  rw [nameSpan]
  split
  · rename_i hempty
    exact (h.select.empty hempty).symm
  · rfl

/-- The name of a called method is text of the call. -/
theorem extent_nameSpan (h : n.PlacedIn source depth) :
    (nameSpan n).IsReadIn source ∧ n.span.contains (nameSpan n) = true := by
  cases n
  case call info callee args =>
    have hcallee := h.child (c := callee) List.mem_cons_self
    have hwithin := h.span_child (c := callee) List.mem_cons_self
    have hcontains := Span.contains_iff.2 ⟨hwithin.1, hwithin.2.1⟩
    cases callee
    case select info' target name span =>
      rw [nameSpan_select hcallee]
      exact ⟨⟨_, hcallee.select.reads⟩, Span.contains_trans hcontains hcallee.select.within⟩
    all_goals exact ⟨hcallee.isReadIn, hcontains⟩
  all_goals exact ⟨h.isReadIn, Span.contains_self _⟩

/-! ## Values -/

/-- The values are placed in the source, apart from one another. -/
structure AreApart (source : String) (values : List Node) : Prop where
  placed : ∀ v ∈ values, ∃ depth, v.PlacedIn source depth
  apart : values.Pairwise fun a b => a.span.IsBefore b.span

theorem areApart_nil (source : String) : AreApart source [] :=
  ⟨List.forall_mem_nil _, .nil⟩

/-- The arguments of a call lie apart. -/
theorem areApart_argumentsOf (h : n.PlacedIn source depth) : AreApart source (argumentsOf n) := by
  refine ⟨fun v hv => ⟨_, h.child (argumentsOf_subset n hv)⟩, ?_⟩
  cases n
  case call => exact h.call.args_apart
  all_goals exact .nil

/-- A call whose name is selected on a node is around that node. -/
theorem of_under_invocation {parent grandparent : Ancestor} {rest : List Ancestor}
    {info info' : NodeInfo} {target callee : Node} {name : String} {span : Span} {args : List Node}
    (h : root.Under n (parent :: grandparent :: rest))
    (hparent : parent.node = .select info target name span)
    (hgrandparent : grandparent.node = .call info' callee args) (hchild : grandparent.child = 0) :
    parent = ⟨.select info n name span, 0⟩ ∧
      grandparent.node = .call info' (.select info n name span) args ∧
      root.Under grandparent.node rest := by
  cases h with
  | @child _ _ _ i hp hn =>
    cases hp with
    | child hg hp =>
      dsimp only at hparent hgrandparent hchild ⊢
      subst hparent hgrandparent hchild
      obtain rfl : callee = .select info target name span := Option.some.inj hp
      obtain rfl : target = n := List.mem_singleton.1 (List.mem_of_getElem? hn) |>.symm
      have hfirst : i < 1 := (List.getElem?_eq_some_iff.1 hn).1
      obtain rfl : i = 0 := by omega
      exact ⟨rfl, rfl, hg⟩

/-- **What is selected on a node and called** is around the node, and its
arguments are behind it. -/
theorem invocation_spacing {info info' : NodeInfo} {name : String} {span : Span} {args : List Node}
    (h : (Node.call info (.select info' n name span) args).PlacedIn source depth) :
    info.span.contains n.span = true ∧ ∀ v ∈ args, n.span.IsBefore v.span := by
  have hcallee := h.child (c := .select info' n name span) List.mem_cons_self
  have hwithin := h.contains_child (c := .select info' n name span) List.mem_cons_self
  have hpart := hcallee.contains_child (c := n) List.mem_cons_self
  refine ⟨Span.contains_trans hwithin hpart, fun v hv => ?_⟩
  exact (h.call.callee_before v hv).mono hpart (Span.contains_self _)

/-- **The calls of a chain give values behind one another**, all of them behind
the call that the chain begins with and within the last call. -/
structure ChainSpacing (source : String) (first : Node) (links : List Node) : Prop where
  values : AreApart source (links.flatMap argumentsOf)
  behind : ∀ v ∈ links.flatMap argumentsOf, first.span.IsBefore v.span
  within : ∀ last ∈ links.getLast?, last.span.contains first.span = true ∧
    ∀ v ∈ links.flatMap argumentsOf, last.span.contains v.span = true

theorem chainSpacing_nil (source : String) (first : Node) : ChainSpacing source first [] :=
  ⟨areApart_nil source, List.forall_mem_nil _, nofun⟩

/-- One more call in front of a chain. -/
theorem ChainSpacing.cons {info info' : NodeInfo} {name : String} {span : Span}
    {args links : List Node}
    (hlink : (Node.call info (.select info' n name span) args).PlacedIn source depth)
    (h : ChainSpacing source (.call info (.select info' n name span) args) links) :
    ChainSpacing source n (.call info (.select info' n name span) args :: links) := by
  obtain ⟨hfirst, hbehind⟩ := invocation_spacing hlink
  have hargs := areApart_argumentsOf hlink
  have hpart : ∀ v ∈ args, info.span.contains v.span = true := fun v hv =>
    hlink.contains_child (List.mem_cons_of_mem _ hv)
  refine ⟨⟨?_, ?_⟩, ?_, fun last hlast => ?_⟩
  · exact List.forall_mem_append.2 ⟨hargs.placed, h.values.placed⟩
  · refine List.pairwise_append.2 ⟨hargs.apart, h.values.apart, fun v hv w hw => ?_⟩
    exact (h.behind w hw).mono (hpart v hv) (Span.contains_self _)
  · refine List.forall_mem_append.2 ⟨hbehind, fun v hv => ?_⟩
    exact (h.behind v hv).mono hfirst (Span.contains_self _)
  · cases links with
    | nil =>
      obtain rfl := Option.some.inj hlast
      exact ⟨hfirst, List.forall_mem_append.2 ⟨hpart, List.forall_mem_nil _⟩⟩
    | cons next links =>
      rw [List.getLast?_cons_cons] at hlast
      obtain ⟨hcontains, hvalues⟩ := h.within last hlast
      exact ⟨Span.contains_trans hcontains hfirst, List.forall_mem_append.2
        ⟨fun v hv => Span.contains_trans hcontains (hpart v hv), hvalues⟩⟩

theorem chainSpacing (hroot : root.PlacedIn source depth) {methods : List String}
    {above : List Ancestor} (h : root.Under n above) :
    ChainSpacing source n (chain methods above) := by
  fun_induction chain methods above generalizing n with
  | case1 parent grandparent rest _ _ _ _ _ _ _ hgrandparent hparent hlink ih =>
    obtain ⟨-, hcall, hunder⟩ := of_under_invocation h hparent hgrandparent hlink.1
    obtain ⟨_, hstands⟩ := hunder.exists_stands
    obtain ⟨⟨_, hplaced⟩, -⟩ := hroot.of_stands hstands
    have hrest := ih hunder
    rw [hcall] at hplaced hrest ⊢
    exact hrest.cons hplaced
  | case2 | case3 | case4 => exact chainSpacing_nil _ _

/-! ## Call sites -/

/-- **What is edited at a call site lies apart**: the name of the method and each
value, all within the site. -/
structure IsArranged (source : String) (site : CallSite) : Prop where
  reads : (nameSpan site.target).IsReadIn source
  within : site.span.contains (nameSpan site.target) = true
  values : AreApart source site.arguments
  values_within : ∀ v ∈ site.arguments, site.span.contains v.span = true
  apart : ∀ v ∈ site.arguments, (nameSpan site.target).IsBefore v.span ∨
    v.span.IsBefore (nameSpan site.target)

theorem exists_of_invocation? {above : List Ancestor} {outer : Node} (h : root.Under n above)
    (houter : invocation? above = some outer) :
    ∃ info info' name span args rest, outer = .call info (.select info' n name span) args ∧
      root.Under outer rest := by
  unfold invocation? at houter
  split at houter
  · split at houter
    · rename_i parent grandparent rest _ _ _ _ _ _ _ hparent hgrandparent
      rw [Option.ite_none_right_eq_some] at houter
      obtain ⟨hchild, houter⟩ := houter
      obtain rfl := Option.some.inj houter
      obtain ⟨-, hcall, hunder⟩ := of_under_invocation h hparent hgrandparent hchild
      exact ⟨_, _, _, _, _, _, hcall, hunder⟩
    · exact absurd houter (by simp)
  · exact absurd houter (by simp)

theorem isArranged_of_whenSite? {call : Node} {above : List Ancestor} {site : CallSite}
    (hroot : root.PlacedIn source depth) (h : root.Under call above)
    (hsite : m.whenSite? call above = some site) : IsArranged source site := by
  obtain ⟨_, hstands⟩ := h.exists_stands
  obtain ⟨⟨_, hcall⟩, -⟩ := hroot.of_stands hstands
  have hchain : ChainSpacing source call (chain m.conventions.chainMethods above) :=
    chainSpacing hroot h
  unfold whenSite? at hsite
  split at hsite
  · rename_i stubbed hargs
    obtain ⟨target, htarget, hsite⟩ := Option.bind_eq_some_iff.1 hsite
    obtain ⟨last, hlast, hsite⟩ := Option.bind_eq_some_iff.1 hsite
    obtain rfl := Option.some.inj hsite
    obtain rfl := call?_eq_some htarget
    have hmem : stubbed ∈ call.children := argumentsOf_subset _ (by simp [hargs])
    -- What is stubbed stands in the call of `when`, and the values stand behind that.
    obtain ⟨⟨_, hplaced⟩, hpart⟩ := hcall.of_stands (Node.Stands.root.child hmem).skipParens
    obtain ⟨hreads, hname⟩ := extent_nameSpan hplaced
    have hname := Span.contains_trans hpart hname
    refine ⟨hreads, Span.contains_trans (Span.hull_contains_left _ _) hname, hchain.values,
      fun v hv => ?_, fun v hv => ?_⟩
    · exact Span.contains_trans (Span.hull_contains_right _ _) ((hchain.within last hlast).2 v hv)
    · exact .inl ((hchain.behind v hv).mono hname (Span.contains_self _))
  · exact absurd hsite (by simp)

/-- The values before a call of the method stand in what it is selected on. -/
theorem isArranged_of_inner {info info' : NodeInfo} {inner values : Node} {name : String}
    {span : Span} {args : List Node} {depth' : Nat}
    (h : (Node.call info (.select info' inner name span) args).PlacedIn source depth)
    (hvalues : inner.Stands depth' values) :
    IsArranged source ⟨.call info (.select info' inner name span) args, argumentsOf values,
      info.span, false⟩ := by
  have hselect := h.child (c := .select info' inner name span) List.mem_cons_self
  have hinner := hselect.child (c := inner) List.mem_cons_self
  obtain ⟨⟨_, hplaced⟩, hpart⟩ := hinner.of_stands hvalues
  obtain ⟨hreads, hname⟩ := extent_nameSpan h
  have hargs : ∀ v ∈ argumentsOf values, inner.span.contains v.span = true := fun v hv =>
    Span.contains_trans hpart (hplaced.contains_child (argumentsOf_subset values hv))
  refine ⟨hreads, hname, areApart_argumentsOf hplaced, fun v hv => ?_, fun v hv => ?_⟩
  · exact Span.contains_trans (invocation_spacing h).1 (hargs v hv)
  · rw [nameSpan_select hselect]
    exact .inr (hselect.select.target_before.mono (hargs v hv) (Span.contains_self _))

/-- **What is edited at a call site that is recognised lies apart.** -/
theorem isArranged_of_recognise? {place : Place} {site : CallSite}
    (hroot : root.PlacedIn source depth) (hplace : place ∈ root.places)
    (hsite : m.recognise? place.node place.above = some site) : IsArranged source site := by
  have hunder := Node.under_of_mem_places hplace
  unfold recognise? at hsite
  split at hsite
  · rename_i info callee args hcall
    rw [hcall] at hunder
    obtain ⟨method, -, hsite⟩ := Option.bind_eq_some_iff.1 hsite
    split at hsite
    · exact isArranged_of_whenSite? hroot hunder hsite
    · obtain ⟨outer, houter, hsite⟩ := Option.bind_eq_some_iff.1 hsite
      obtain ⟨i, i', name, span, args', rest, rfl, habove⟩ := exists_of_invocation? hunder houter
      obtain ⟨_, hstands⟩ := habove.exists_stands
      obtain ⟨⟨_, hplaced⟩, -⟩ := hroot.of_stands hstands
      obtain ⟨hreads, hname⟩ := extent_nameSpan hplaced
      split at hsite
      · obtain rfl := Option.some.inj hsite
        exact ⟨hreads, hname, areApart_nil source, List.forall_mem_nil _, List.forall_mem_nil _⟩
      · split at hsite
        · obtain ⟨values, hreturned, hsite⟩ := Option.map_eq_some_iff.1 hsite
          obtain rfl := hsite
          obtain ⟨j, returning, name', span', rfl, rfl⟩ := exists_of_returnedValues? hreturned
          have hcallee : (Node.call info (.select j returning name' span') args).Stands _
            (.select j returning name' span') := .child .root List.mem_cons_self
          exact isArranged_of_inner hplaced (hcallee.child List.mem_cons_self).skipParens
        · exact absurd hsite (by simp)
  · exact absurd hsite (by simp)

/-! ## Edits -/

/-- **What is edited in a value is text of the value**, and no two edits there
conflict. -/
theorem extent_of_convert {value : Node} {rule : Rule} {fix : Fix}
    (hvalue : value.PlacedIn m.source depth) (h : m.convert rule value = .ok fix) :
    (∀ e ∈ fix.edits, e.span.IsReadIn m.source ∧ value.span.contains e.span = true) ∧
      ∀ a ∈ fix.edits, ∀ b ∈ fix.edits, a.conflictsWith b = false := by
  obtain ⟨found, hfound, hedits⟩ := isEditedBy_of_convert h
  have hedit : ∀ f ∈ found, ∃ e, f.edits = [e] ∧ e.span.IsReadIn m.source ∧
      value.span.contains e.span = true := fun f hf =>
    Scan.exists_edit_of_mem_findings (s := m.valueScan rule) hvalue hfound hf
  have hself : ∀ f ∈ found, f.clashesWith f = false := fun f hf => by
    obtain ⟨e, he, -⟩ := hedit f hf
    simp [Finding.clashesWith, he]
  refine ⟨fun e he => ?_, fun a ha b hb => ?_⟩
  · obtain ⟨f, hf, he⟩ := List.mem_flatMap.1 (hedits ▸ he)
    obtain ⟨e', heq, hextent⟩ := hedit f (Finding.mem_of_mem_selectCompatible hf)
    rw [heq] at he
    exact List.mem_singleton.1 he ▸ hextent
  · obtain ⟨f, hf, ha⟩ := List.mem_flatMap.1 (hedits ▸ ha)
    obtain ⟨g, hg, hb⟩ := List.mem_flatMap.1 (hedits ▸ hb)
    exact Finding.clashesWith_eq_false_iff.1
      (Finding.not_clashesWith_of_mem_selectCompatible hself hf hg) a ha b hb

/-- Different values lie apart. -/
theorem AreApart.isBefore_or {values : List Node} (h : AreApart source values) {v w : Node}
    (hv : v ∈ values) (hw : w ∈ values) :
    v = w ∨ v.span.IsBefore w.span ∨ w.span.IsBefore v.span :=
  List.Pairwise.forall_of_forall_of_flip
    (R := fun a b => a = b ∨ a.span.IsBefore b.span ∨ b.span.IsBefore a.span)
    (fun _ _ => .inl rfl) (h.apart.imp fun h => .inr (.inl h)) (h.apart.imp fun h => .inr (.inr h))
    hv hw

/-- What lies apart does not conflict, whichever comes first. -/
theorem not_conflictsWith_of_apart {a b : Edit} (ha : a.span.IsReadIn source)
    (hb : b.span.IsReadIn source) (h : a.span.IsBefore b.span ∨ b.span.IsBefore a.span) :
    a.conflictsWith b = false := by
  rcases h with h | h
  · exact Edit.not_conflictsWith_of_isBefore ha.start_le_stop h
  · rw [Edit.conflictsWith_comm]
    exact Edit.not_conflictsWith_of_isBefore hb.start_le_stop h

/-- Each edit is one of a value's conversion. -/
def AreConversions (m : CallSiteMigration) (rule : Rule) (values : List Node) (es : List Edit) :
    Prop :=
  ∀ e ∈ es, ∃ v ∈ values, ∃ fix, m.convert rule v = .ok fix ∧ e ∈ fix.edits

/-- Conversions of values that lie apart do not conflict. -/
theorem not_conflictsWith_of_areConversions {values : List Node} {rule : Rule} {es : List Edit}
    (hvalues : AreApart m.source values) (h : m.AreConversions rule values es) {a b : Edit}
    (ha : a ∈ es) (hb : b ∈ es) : a.conflictsWith b = false := by
  obtain ⟨v, hv, fix, hfix, ha⟩ := h a ha
  obtain ⟨w, hw, fix', hfix', hb⟩ := h b hb
  obtain ⟨_, hplaced⟩ := hvalues.placed v hv
  obtain ⟨_, hplaced'⟩ := hvalues.placed w hw
  obtain ⟨hreads, hwithin⟩ := (extent_of_convert hplaced hfix).1 a ha
  obtain ⟨hreads', hwithin'⟩ := (extent_of_convert hplaced' hfix').1 b hb
  rcases hvalues.isBefore_or hv hw with rfl | hbefore
  · obtain rfl := Except.ok.inj (hfix.symm.trans hfix')
    exact (extent_of_convert hplaced hfix).2 a ha b hb
  · exact not_conflictsWith_of_apart hreads hreads'
      (hbefore.imp (·.mono hwithin hwithin') (·.mono hwithin' hwithin))

/-- **The edits of a site whose parts lie apart** are text of the site, and no two
of them conflict. -/
theorem IsArranged.extent {site : CallSite} {rule : Rule} {name : String} {es : List Edit}
    (harranged : IsArranged m.source site) (h : m.AreConversions rule site.arguments es) :
    (∀ e ∈ ⟨nameSpan site.target, name⟩ :: es,
      e.span.IsReadIn m.source ∧ site.span.contains e.span = true) ∧
    ∀ a ∈ ⟨nameSpan site.target, name⟩ :: es, ∀ b ∈ ⟨nameSpan site.target, name⟩ :: es,
      a.conflictsWith b = false := by
  have hextent : ∀ e ∈ es, ∃ v ∈ site.arguments, e.span.IsReadIn m.source ∧
      v.span.contains e.span = true := fun e he => by
    obtain ⟨v, hv, fix, hfix, he⟩ := h e he
    obtain ⟨_, hplaced⟩ := harranged.values.placed v hv
    exact ⟨v, hv, (extent_of_convert hplaced hfix).1 e he⟩
  have hname : ∀ e ∈ es, Edit.conflictsWith ⟨nameSpan site.target, name⟩ e = false := by
    intro e he
    obtain ⟨v, hv, hreads, hwithin⟩ := hextent e he
    refine not_conflictsWith_of_apart harranged.reads hreads ?_
    exact (harranged.apart v hv).imp (·.mono (Span.contains_self _) hwithin)
      (·.mono hwithin (Span.contains_self _))
  constructor
  · refine List.forall_mem_cons.2 ⟨⟨harranged.reads, harranged.within⟩, fun e he => ?_⟩
    obtain ⟨v, hv, hreads, hwithin⟩ := hextent e he
    exact ⟨hreads, Span.contains_trans (harranged.values_within v hv) hwithin⟩
  · refine List.forall_mem_cons.2 ⟨List.forall_mem_cons.2 ⟨Edit.conflictsWith_self _, hname⟩,
      fun a ha => List.forall_mem_cons.2 ⟨?_, fun b hb => ?_⟩⟩
    · rw [Edit.conflictsWith_comm]
      exact hname a ha
    · exact not_conflictsWith_of_areConversions harranged.values h ha hb

/-- The finding at a call site renames the method and converts values of the
site. -/
theorem exists_conversions {node : Node} {above : List Ancestor} {f : Finding}
    (h : m.migrate node above = .ok (some f)) :
    ∃ site method rule es, m.recognise? node above = some site ∧ f.span = site.span ∧
      f.edits.Perm (⟨nameSpan site.target, m.conventions.migratedName method⟩ :: es) ∧
      m.AreConversions rule site.arguments es := by
  obtain ⟨site, method, hsite, hmethod, h⟩ := migrate_eq_ok_some_iff.1 h
  cases hrename : site.renameOnly with
  | true =>
    obtain ⟨-, rfl⟩ := (migrateSite_eq_ok_some_iff_of_renameOnly hrename).1 h
    exact ⟨site, method, default, [], hsite, rfl, List.Perm.refl _, List.forall_mem_nil _⟩
  | false =>
    obtain ⟨-, -, -, pair, fix, -, hfix, rfl⟩ := (migrateSite_eq_ok_some_iff hrename).1 h
    exact ⟨site, method, pair.forward, fix.edits, hsite, rfl, edits_found_siteFix _ _ _,
      (exists_of_convertAll hfix).2⟩

/-- **The edits of a migrated call site** are text of the site, and no two of them
conflict. -/
theorem extent_of_migrate {place : Place} {f : Finding} (hroot : root.PlacedIn m.source depth)
    (hplace : place ∈ root.places) (h : m.migrate place.node place.above = .ok (some f)) :
    (∀ e ∈ f.edits, e.span.IsReadIn m.source ∧ f.span.contains e.span = true) ∧
      f.clashesWith f = false := by
  obtain ⟨site, method, rule, es, hsite, hspan, hperm, hconversions⟩ := exists_conversions h
  obtain ⟨hextent, hagree⟩ :=
    (isArranged_of_recognise? hroot hplace hsite).extent hconversions
  rw [Finding.clashesWith_eq_false_iff, hspan]
  exact ⟨fun e he => hextent e (hperm.subset he), fun a ha b hb =>
    hagree a (hperm.subset ha) b (hperm.subset hb)⟩

/-- **The findings of a laid out tree make a script**: their edits fit its print
and do not conflict, so the script holds all of them and nothing else. The findings
are in the order of the text, and each spans its edits. -/
theorem exists_compose_findings (pairs : List MigrationPair) (oracle : TypeOracle)
    (conventions : StubbingConventions) (tree : Node) {fs : List Finding}
    (h : ( ⟨pairs, oracle, tree.print, conventions⟩ : CallSiteMigration).findings tree.laidOut =
      .ok fs) :
    (∃ script, EditScript.compose fs tree.print = .ok script ∧ script.Holds fs) ∧
      fs.Pairwise (fun f g => g.span.precedes f.span = false) ∧
      ∀ f ∈ fs, ∀ e ∈ f.edits, f.span.contains e.span = true := by
  have hroot : tree.laidOut.PlacedIn tree.print 0 := Node.placedIn_of_stands .root
  obtain ⟨found, hfound, h⟩ := bind_eq_ok_iff.1 h
  obtain rfl := pure_eq_ok_iff.1 h
  have hextent : ∀ f ∈ found.filterMap id,
      (∀ e ∈ f.edits, e.span.IsReadIn tree.print ∧ f.span.contains e.span = true) ∧
        f.clashesWith f = false := fun f hf => by
    obtain ⟨_, hmem, rfl⟩ := List.mem_filterMap.1 hf
    obtain ⟨place, hplace, hmigrate⟩ := exists_of_mapM_eq_ok hfound hmem
    exact extent_of_migrate hroot hplace hmigrate
  obtain ⟨script, hscript, -⟩ := EditScript.compose_selectCompatible_eq_ok
    (fun f hf e he => ((hextent f hf).1 e he).1) fun f hf => (hextent f hf).2
  have hholds := (EditScript.of_compose_eq_ok hscript).2
  exact ⟨⟨script, hscript, hholds⟩, Finding.ordered_selectCompatible _, fun f hf e he =>
    ((hextent f (Finding.mem_of_mem_selectCompatible hf)).1 e he).2⟩

/-! ## A stubbing of a value that is converted -/

/-- The findings where one place alone is the anchor of a call site. -/
theorem findings_of_places {before after : List Place} {place : Place} {f : Finding}
    (hplaces : root.places = before ++ place :: after)
    (hothers : ∀ p ∈ before ++ after, m.migrate p.node p.above = .ok none)
    (h : m.migrate place.node place.above = .ok (some f)) :
    m.findings root = .ok (Finding.selectCompatible [f]) := by
  have hnone : ∀ places : List Place, (∀ p ∈ places, m.migrate p.node p.above = .ok none) →
      places.mapM (fun p => m.migrate p.node p.above) = .ok (places.map fun _ => none) := by
    intro places hplaces
    induction places with
    | nil => rfl
    | cons p places ih =>
      obtain ⟨hp, hplaces⟩ := List.forall_mem_cons.1 hplaces
      rw [List.mapM_cons, hp, ih hplaces]
      rfl
  have hskip : ∀ places : List Place, (places.map fun _ => (none : Option Finding)).filterMap id =
      [] := by
    intro places
    refine List.filterMap_eq_nil_iff.2 fun f hf => ?_
    obtain ⟨_, -, rfl⟩ := List.mem_map.1 hf
    rfl
  obtain ⟨hbefore, hafter⟩ := List.forall_mem_append.1 hothers
  rw [findings, hplaces, List.mapM_append, List.mapM_cons, h, hnone _ hbefore, hnone _ hafter]
  refine congrArg (fun found => Except.ok (Finding.selectCompatible found)) ?_
  rw [List.filterMap_append, hskip, List.nil_append]
  exact congrArg (f :: ·) (hskip after)

/-- Only `when` is the anchor of a call site in `when(r.m()).thenReturn(x)`. -/
theorem findings_stubbing_plainValue {f : Finding}
    (h : (migrationBy (toNew oldTy oldTy none) "x").migrate (whenPlace oldTy plainValue).node
      (whenPlace oldTy plainValue).above = .ok (some f)) :
    (migrationBy (toNew oldTy oldTy none) "x").findings (stubbing oldTy plainValue) =
      .ok [f] := by
  let when : Node := .ident ⟨⟨0, 4⟩, none, none⟩ "when"
  let mock : Node := .ident ⟨⟨5, 6⟩, none, none⟩ "r"
  let selected : Node := .select ⟨⟨5, 8⟩, none, none⟩ mock "m" ⟨7, 8⟩
  let inWhen : List Ancestor := ⟨whenCall oldTy, 1⟩ :: (whenPlace oldTy plainValue).above
  have hplaces : (stubbing oldTy plainValue).places =
      [⟨stubbing oldTy plainValue, []⟩, ⟨thenReturn oldTy, [⟨stubbing oldTy plainValue, 0⟩]⟩] ++
        whenPlace oldTy plainValue ::
        [⟨when, ⟨whenCall oldTy, 0⟩ :: (whenPlace oldTy plainValue).above⟩,
          ⟨stubbed oldTy, inWhen⟩, ⟨selected, ⟨stubbed oldTy, 0⟩ :: inWhen⟩,
          ⟨mock, ⟨selected, 0⟩ :: ⟨stubbed oldTy, 0⟩ :: inWhen⟩,
          ⟨plainValue, [⟨stubbing oldTy plainValue, 1⟩]⟩] := by
    simp only [Node.places, stubbing, thenReturn, whenCall, stubbed, plainValue,
      Node.placesUnder_call, Node.placesUnder_select, Node.placesUnder_ident, List.zipIdx_cons,
      List.zipIdx_nil, List.flatMap_cons, List.flatMap_nil]
    rfl
  have hselected : Finding.selectCompatible [f] = [f] := by
    simp [Finding.selectCompatible, Finding.keep]
  rw [← hselected]
  refine findings_of_places hplaces ?_ h
  simp only [List.cons_append, List.nil_append, List.forall_mem_cons]
  exact ⟨rfl, rfl, rfl, rfl, rfl, rfl, rfl, List.forall_mem_nil _⟩

/-- The renaming of `m` and the conversion of `x` make a script. -/
theorem exists_compose_stubbing_plainValue : ∃ f script,
    (migrationBy (toNew oldTy oldTy none) "x").findings (stubbing oldTy plainValue) = .ok [f] ∧
      ⟨⟨7, 8⟩, "m_migrated"⟩ ∈ f.edits ∧
      EditScript.compose [f] (stubbing oldTy plainValue).print = .ok script ∧
      script.Holds [f] ∧ ∀ e ∈ f.edits, f.span.contains e.span = true := by
  obtain ⟨fix, hfix⟩ := exists_convert_plainValue
  have hpair : (migrationBy (toNew oldTy oldTy none) "x").pair? oldTy =
      some (toNew oldTy oldTy none) := rfl
  obtain ⟨f, hf, hedits⟩ := migrate_stubbing hpair rfl hfix
  have hfindings := findings_stubbing_plainValue hf
  have hprint : (stubbing oldTy plainValue).print = "when(r.m()).thenReturn(" ++ "x" ++ ")" := by
    decide +kernel
  have hlaidOut : ( ⟨[toNew oldTy oldTy none], Hierarchy.javaLang.oracle,
      (stubbing oldTy plainValue).print, .standard⟩ : CallSiteMigration).findings
        (stubbing oldTy plainValue).laidOut = .ok [f] := by
    rw [hprint]
    exact hfindings
  obtain ⟨⟨script, hscript, hholds⟩, -, hwithin⟩ := exists_compose_findings _ _ _ _ hlaidOut
  exact ⟨f, script, hfindings, hedits.mem_iff.2 List.mem_cons_self, hscript, hholds,
    hwithin f (List.mem_singleton_self f)⟩

end CallSiteMigration

end Codemod
