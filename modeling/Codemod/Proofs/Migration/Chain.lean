import Codemod.Proofs.Migration.Arrangement
/-!
# Chains of values

After `when` the values stand in calls of chain methods, each selected on the
call before (`Place.IsCalledOn`). All of these calls that follow one another
are found, and no others (`CallSiteMigration.exists_links`): a call within an
argument is not selected on the call before, and behind a call of another
method the chain does not go on. The finding then spans from `when` to the
last of them, and edits nothing but the name of the stubbed method and what the
scans of the single values come to (`CallSiteMigration.exists_longest_chain`).
-/

namespace Codemod

open Outcome Text

/-- At `q` stands the call of one of the methods that is selected on what stands
at `p`. -/
def Place.IsCalledOn (methods : List String) (p q : Place) : Prop :=
  ∃ info info' name span args, q.node = .call info (.select info' p.node name span) args ∧
    name ∈ methods ∧ p.above = ⟨.select info' p.node name span, 0⟩ :: ⟨q.node, 0⟩ :: q.above

/-- Each place calls one of the methods on the place before it, and the first one
does on the given place. -/
def Place.IsChain (methods : List String) (first : Place) (links : List Place) : Prop :=
  (first :: links).IsChain (Place.IsCalledOn methods)

namespace Node

/-- The name by which a call calls its method. -/
def calledName? : Node → Option String
  | .call _ (.select _ _ name _) _ | .call _ (.ident _ name) _ => some name
  | _ => none

end Node

namespace CallSiteMigration

variable {m : CallSiteMigration} {source : String} {root n : Node} {depth : Nat}
  {methods : List String} {first : Place} {links : List Place}

/-! ## The longest chain -/

/-- Only one call is selected on what stands at a place. -/
theorem eq_of_isCalledOn {p q q' : Place} (h : p.IsCalledOn methods q)
    (h' : p.IsCalledOn methods q') : q = q' := by
  obtain ⟨_, _, _, _, _, -, -, habove⟩ := h
  obtain ⟨_, _, _, _, _, -, -, habove'⟩ := h'
  have hsame := habove.symm.trans habove'
  obtain ⟨-, hrest⟩ := List.cons.inj hsame
  obtain ⟨hcall, hmore⟩ := List.cons.inj hrest
  cases q
  cases q'
  cases hcall
  cases hmore
  rfl

/-- A call that is selected on what stands at a place is found, and then what
follows it. -/
theorem chain_of_isCalledOn {p q : Place} (h : p.IsCalledOn methods q) :
    chain methods p.above = q.node :: chain methods q.above := by
  obtain ⟨info, info', name, span, args, hcall, hname, habove⟩ := h
  rw [habove, chain]
  simp only [hcall]
  rw [if_pos ⟨trivial, List.contains_iff_mem.2 hname⟩]

/-- What is found first is selected on the node. -/
theorem exists_isCalledOn {above : List Ancestor} (h : root.Under n above)
    (hne : chain methods above ≠ []) :
    ∃ q : Place, Place.IsCalledOn methods ⟨n, above⟩ q ∧ root.Under q.node q.above := by
  unfold chain at hne
  split at hne
  · split at hne
    · rename_i parent grandparent rest _ _ info' target name span info callee args hparent
        hgrandparent
      split_ifs at hne with hlink
      · obtain ⟨rfl, hcall, hunder⟩ := of_under_invocation h hparent hgrandparent hlink.1
        obtain ⟨node, child⟩ := grandparent
        obtain rfl : child = 0 := hlink.1
        exact ⟨⟨node, rest⟩, ⟨info, info', name, span, args, hcall,
          List.contains_iff_mem.1 hlink.2, rfl⟩, hunder⟩
      · exact absurd rfl hne
    · exact absurd rfl hne
  · exact absurd rfl hne

/-- **The chain that is found is the longest**: it is a chain, and every chain
from there is the beginning of it. -/
theorem exists_links (methods : List String) {above : List Ancestor} (h : root.Under n above) :
    ∃ links : List Place, links.map (·.node) = chain methods above ∧
      (∀ link ∈ links, link ∈ root.places) ∧ Place.IsChain methods ⟨n, above⟩ links ∧
      ∀ others, Place.IsChain methods ⟨n, above⟩ others → others <+: links := by
  induction hchain : chain methods above generalizing n above with
  | nil =>
    refine ⟨[], rfl, List.forall_mem_nil _, .singleton _, fun others hothers => ?_⟩
    cases others with
    | nil => exact List.nil_prefix
    | cons q others =>
      have hcalled : Place.IsCalledOn methods ⟨n, above⟩ q := (List.isChain_cons_cons.1 hothers).1
      have hfound := chain_of_isCalledOn hcalled
      exact absurd (hchain.symm.trans hfound) (by simp)
  | cons link rest ih =>
    obtain ⟨q, hcalled, hunder⟩ := exists_isCalledOn h (hchain ▸ List.cons_ne_nil link rest)
    obtain ⟨rfl, hrest⟩ := List.cons.inj (hchain.symm.trans (chain_of_isCalledOn hcalled))
    obtain ⟨links, hlinks, hplaces, hlongest, hprefix⟩ := ih hunder hrest.symm
    refine ⟨q :: links, congrArg (q.node :: ·) hlinks, List.forall_mem_cons.2
      ⟨hunder.mem_places, hplaces⟩, List.isChain_cons_cons.2 ⟨hcalled, hlongest⟩,
      fun others hothers => ?_⟩
    cases others with
    | nil => exact List.nil_prefix
    | cons q' others =>
      obtain ⟨hcalled', hothers⟩ := List.isChain_cons_cons.1 hothers
      obtain rfl := eq_of_isCalledOn hcalled hcalled'
      exact List.cons_prefix_cons.2 ⟨rfl, hprefix others hothers⟩

/-! ## What a chain spans -/

/-- What is called on a node begins where the node does, and goes on behind it. -/
theorem span_of_isCalledOn {p q : Place} (hroot : root.PlacedIn source depth)
    (hq : q ∈ root.places) (h : p.IsCalledOn methods q) :
    q.node.span.start = p.node.span.start ∧ p.node.span.stop ≤ q.node.span.stop := by
  obtain ⟨info, info', name, span, args, hcall, -, -⟩ := h
  obtain ⟨_, hstands⟩ := (Node.under_of_mem_places hq).exists_stands
  obtain ⟨⟨_, hplaced⟩, -⟩ := hroot.of_stands hstands
  rw [hcall] at hplaced ⊢
  have hselect := hplaced.child (c := .select info' p.node name span) List.mem_cons_self
  have hstart := hplaced.start_callee.symm.trans hselect.start_target.symm
  have hcontains := (invocation_spacing hplaced).1
  exact ⟨hstart, (Span.contains_iff.1 hcontains).2⟩

/-- **A chain begins where its first call does**, and goes on behind it. -/
theorem span_of_isChain (hroot : root.PlacedIn source depth)
    (hplaces : ∀ link ∈ links, link ∈ root.places) (h : first.IsChain methods links) {last : Place}
    (hlast : last ∈ links.getLast?) :
    first.node.span.hull last.node.span = ⟨first.node.span.start, last.node.span.stop⟩ := by
  have hends : last.node.span.start = first.node.span.start ∧
      first.node.span.stop ≤ last.node.span.stop := by
    induction links generalizing first with
    | nil => exact absurd hlast nofun
    | cons link links ih =>
      obtain ⟨hlink, hrest⟩ := List.forall_mem_cons.1 hplaces
      obtain ⟨hcalled, hchain⟩ := List.isChain_cons_cons.1 h
      obtain ⟨hstart, hstop⟩ := span_of_isCalledOn hroot hlink hcalled
      cases links with
      | nil =>
        obtain rfl := Option.some.inj hlast
        exact ⟨hstart, hstop⟩
      | cons next links =>
        obtain ⟨hstart', hstop'⟩ := ih hrest hchain (by rwa [List.getLast?_cons_cons] at hlast)
        exact ⟨hstart'.trans hstart, Nat.le_trans hstop hstop'⟩
  rw [Span.hull, hends.1, Nat.min_self, Nat.max_eq_right hends.2]

/-! ## What is edited -/

/-- **The edits of several values** are those of each of them. -/
theorem exists_edits_of_convertAll {rule : Rule} {values : List Node} {fix : Fix}
    (h : m.convertAll rule values = .ok fix) :
    ∃ edits, List.Forall₂ (m.IsEditedBy rule) values edits ∧ fix.edits = edits.flatten := by
  obtain ⟨fixes, hfixes, hedits⟩ := exists_fixes_of_convertAll h
  refine ⟨fixes.map Fix.edits, ?_, by rw [hedits, List.flatMap_def]⟩
  exact List.forall₂_map_right_iff.2
    ((forall₂_of_mapM_eq_ok hfixes).imp fun _ _ => isEditedBy_of_convert)

/-- The name that is replaced is the name of the called method. -/
theorem slice?_nameSpan (h : n.PlacedIn source depth) {name : String}
    (hname : n.calledName? = some name) : (nameSpan n).slice? source = some name := by
  cases n
  case call info callee args =>
    have hcallee := h.child (c := callee) List.mem_cons_self
    cases callee
    case select =>
      obtain rfl := Option.some.inj hname
      rw [nameSpan_select hcallee]
      exact hcallee.select.reads
    case ident =>
      obtain rfl := Option.some.inj hname
      exact hcallee.slice?.2
    all_goals exact absurd hname nofun
  all_goals exact absurd hname nofun

/-! ## Stubbings with `when` -/

/-- A call of `when` is the anchor of a call site if some chain method is called
on it. -/
theorem recognise?_of_when {place : Place} {info : NodeInfo} {callee stubbed target : Node}
    {method : MethodSymbol} (hcall : place.node = .call info callee [stubbed])
    (hmethod : place.node.methodSymbol? = some method)
    (hentry : m.conventions.isEntry method m.conventions.whenMethod = true)
    (htarget : call? stubbed = some target) :
    m.recognise? place.node place.above =
      (chain m.conventions.chainMethods place.above).getLast?.map fun last =>
        ⟨target, (chain m.conventions.chainMethods place.above).flatMap argumentsOf,
          place.node.span.hull last.span, false⟩ := by
  rw [hcall] at hmethod ⊢
  rw [recognise?]
  rw [hmethod, Option.bind_eq_bind, Option.bind_some, if_pos hentry, whenSite?]
  simp only [argumentsOf, htarget]
  cases (chain m.conventions.chainMethods place.above).getLast? with
  | none => rfl
  | some last => rfl

/-- **A stubbing with `when` takes in the longest chain** of calls behind it. With
none there is no finding. Otherwise a finding spans from `when` to the last
call, and its edits are the renaming of the stubbed method and those of each
value of the chain. -/
theorem exists_longest_chain {tree : Node} (hsource : m.source = tree.print) {place : Place}
    (hplace : place ∈ tree.laidOut.places) {info : NodeInfo} {callee stubbed target : Node}
    {method : MethodSymbol} (hcall : place.node = .call info callee [stubbed])
    (hmethod : place.node.methodSymbol? = some method)
    (hentry : m.conventions.isEntry method m.conventions.whenMethod = true)
    (htarget : call? stubbed = some target) :
    ∃ links : List Place, place.IsChain m.conventions.chainMethods links ∧
      (∀ others, place.IsChain m.conventions.chainMethods others → others <+: links) ∧
      (links = [] → m.migrate place.node place.above = .ok none) ∧
      ∀ last ∈ links.getLast?, ∀ f, m.migrate place.node place.above = .ok (some f) →
        f.span = ⟨place.node.span.start, last.node.span.stop⟩ ∧
        ∃ called pair edits, target.methodSymbol? = some called ∧
          m.pair? called.returnType = some pair ∧
          (∀ name, target.calledName? = some name →
            (nameSpan target).slice? m.source = some name) ∧
          List.Forall₂ (m.IsEditedBy pair.forward) (links.flatMap fun link => argumentsOf link.node)
            edits ∧
          f.edits.Perm (⟨nameSpan target, m.conventions.migratedName called⟩ :: edits.flatten) := by
  have hroot : tree.laidOut.PlacedIn m.source 0 := hsource ▸ Node.placedIn_of_stands .root
  have hunder := Node.under_of_mem_places hplace
  have hsite := recognise?_of_when hcall hmethod hentry htarget
  obtain ⟨links, hlinks, hplaces, hchain, hlongest⟩ :=
    exists_links m.conventions.chainMethods hunder
  rw [← hlinks, List.getLast?_map, Option.map_map, List.flatMap_map] at hsite
  refine ⟨links, hchain, hlongest, fun hnil => ?_, fun last hlast f hf => ?_⟩
  · rw [hnil] at hsite
    rw [migrate, hsite]
    rfl
  · rw [hlast] at hsite
    obtain ⟨called, pair, fix, hcalled, hpair, hfix, hspan, hedits⟩ :=
      exists_of_migrate hsite rfl hf
    obtain ⟨edits, hvalues, hflatten⟩ := exists_edits_of_convertAll hfix
    refine ⟨?_, called, pair, edits, hcalled, hpair, ?_, hvalues, hflatten ▸ hedits⟩
    · rw [hspan]
      exact span_of_isChain hroot hplaces hchain hlast
    · -- What is stubbed stands in the call of `when`.
      have hmem : stubbed ∈ place.node.children := by
        rw [hcall]
        exact List.mem_cons_of_mem _ (List.mem_singleton_self _)
      obtain ⟨_, hstands⟩ := hunder.exists_stands
      obtain ⟨⟨_, hplaced⟩, -⟩ := hroot.of_stands (hstands.child hmem).skipParens
      obtain rfl := call?_eq_some htarget
      exact fun name hname => slice?_nameSpan hplaced hname

/-! ## A chain of two calls

The tree is `when(r.m()).thenReturn(x).thenReturn(y)`. -/

/-- The value `y`. -/
def secondValue : Node := .ident ⟨⟨37, 38⟩, some oldTy, none⟩ "y"

/-- The method `thenReturn` of the stubbing with `x`. -/
def thenReturnAgain : Node :=
  .select ⟨⟨0, 36⟩, none, none⟩ (stubbing oldTy plainValue) "thenReturn" ⟨26, 36⟩

/-- The stubbing with `x` and then `y`. -/
def stubbingTwice : Node := .call ⟨⟨0, 39⟩, none, none⟩ thenReturnAgain [secondValue]

/-- The place of the first `thenReturn` in it. -/
def firstLink : Place := ⟨stubbing oldTy plainValue, [⟨thenReturnAgain, 0⟩, ⟨stubbingTwice, 0⟩]⟩

/-- The place of `when` in it. -/
def whenPlaceTwice : Place :=
  ⟨whenCall oldTy, ⟨thenReturn oldTy, 0⟩ :: ⟨firstLink.node, 0⟩ :: firstLink.above⟩

/-- The migration of it. -/
def migrationTwice : CallSiteMigration :=
  migrationBy (toNew oldTy oldTy none) "x).thenReturn(y"

theorem isChain_links :
    whenPlaceTwice.IsChain ["thenReturn"] [firstLink, ⟨stubbingTwice, []⟩] := by
  have hfirst : whenPlaceTwice.IsCalledOn ["thenReturn"] firstLink :=
    ⟨_, _, _, _, _, rfl, List.mem_singleton_self _, rfl⟩
  have hsecond : firstLink.IsCalledOn ["thenReturn"] ⟨stubbingTwice, []⟩ :=
    ⟨_, _, _, _, _, rfl, List.mem_singleton_self _, rfl⟩
  exact .cons_cons hfirst (.cons_cons hsecond (.singleton _))

theorem exists_migrate_stubbingTwice : ∃ f,
    migrationTwice.migrate whenPlaceTwice.node whenPlaceTwice.above = .ok (some f) := by
  obtain ⟨fix, hfix⟩ : ∃ fix,
      migrationTwice.convert (toNew oldTy oldTy none).forward plainValue = .ok fix :=
    exists_convert_ident (by decide +kernel)
  obtain ⟨fix', hfix'⟩ : ∃ fix,
      migrationTwice.convert (toNew oldTy oldTy none).forward secondValue = .ok fix :=
    exists_convert_ident (by decide +kernel)
  have hall : migrationTwice.convertAll (toNew oldTy oldTy none).forward
      [plainValue, secondValue] = .ok (fix.merge (fix'.merge .empty)) := by
    rw [convertAll, hfix, convertAll, hfix']
    rfl
  have hpair : migrationTwice.pair? oldTy = some (toNew oldTy oldTy none) := rfl
  have hsite : migrationTwice.recognise? (whenCall oldTy) whenPlaceTwice.above =
      some ⟨stubbed oldTy, [plainValue, secondValue], ⟨0, 39⟩, false⟩ := rfl
  obtain ⟨f, hf, -⟩ := exists_migrate_whenCall hpair hsite rfl rfl hall
  exact ⟨f, hf⟩

/-- Behind `when(r.m())` stand two calls of `thenReturn`: the finding spans all three,
and the values `x` and `y` are edited as a scan of each alone says. -/
theorem exists_longest_chain_stubbing : ∃ f edits,
    migrationTwice.migrate whenPlaceTwice.node whenPlaceTwice.above = .ok (some f) ∧
    f.span = ⟨0, 39⟩ ∧
    List.Forall₂ (migrationTwice.IsEditedBy (toNew oldTy oldTy none).forward)
      [plainValue, secondValue] edits ∧
    f.edits.Perm (⟨⟨7, 8⟩, "m_migrated"⟩ :: edits.flatten) := by
  have hsource : migrationTwice.source = stubbingTwice.print := by
    decide +kernel
  have hplace : whenPlaceTwice ∈ stubbingTwice.laidOut.places := by
    have hunder : stubbingTwice.Under (whenCall oldTy) whenPlaceTwice.above :=
      .child (.child (.child (.child .root rfl) rfl) rfl) rfl
    exact hunder.mem_places
  have hcall : whenPlaceTwice.node = whenCall oldTy := rfl
  have htarget : call? (stubbed oldTy) = some (stubbed oldTy) := rfl
  obtain ⟨links, hchain, hlongest, -, hfound⟩ :=
    exists_longest_chain hsource hplace hcall rfl rfl htarget
  obtain ⟨more, rfl⟩ := hlongest _ isChain_links
  have hmore : more = [] := by
    cases more with
    | nil => rfl
    | cons q more =>
      -- Nothing is above the last call, so nothing is called on it.
      have hlast := (List.isChain_cons_cons.1 (List.isChain_cons_cons.1 hchain).2).2
      obtain ⟨_, _, _, _, _, -, -, habove⟩ := (List.isChain_cons_cons.1 hlast).1
      cases habove
  subst hmore
  obtain ⟨f, hf⟩ := exists_migrate_stubbingTwice
  obtain ⟨hspan, called, pair, edits, hmethod, hpair, -, hedits, hperm⟩ :=
    hfound ⟨stubbingTwice, []⟩ rfl f hf
  obtain rfl := Option.some.inj hmethod
  obtain rfl := Option.some.inj hpair
  exact ⟨f, edits, hf, hspan, hedits, hperm⟩

end CallSiteMigration

end Codemod
