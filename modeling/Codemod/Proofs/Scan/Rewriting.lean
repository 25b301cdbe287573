import Codemod.Proofs.Edit.Selection
import Codemod.Proofs.Scan.Reports
import Codemod.Proofs.Template.Instantiation
import Codemod.Proofs.Template.Standing
import Codemod.Proofs.Tree.Rewriting
import Codemod.Types.Hierarchy
/-!
# Editing the source rewrites the tree

A finding of an expression rule proposes to put a tree in place of a node: the
instance of the first After-Template in place of the node that was found
(`Scan.Proposes`), and makes one edit of it (`Scan.Proposes.edits_eq`). The
selected findings make a script, and applying it to the print of a tree gives
the print of the tree in which all their proposals are carried out
(`Scan.exists_script_apply_eq_print`).
-/

namespace Codemod

open Outcome

namespace Scan

variable {s : Scan} {root tree n m : Node} {f : Finding} {depth : Nat}

/-- All templates are expressions, and no rule only flags what it finds. -/
def RewritesExpressions (s : Scan) : Prop :=
  ∀ rule ∈ s.rules, rule.after ≠ [] ∧ ∀ t ∈ rule.before ++ rule.after, t.isExpression = true

/-- **The finding proposes a tree in place of a node**: its rule applies at the
node, and the tree is the instance of the first After-Template for what was
found there, where as much is required of it as of the node. -/
def Proposes (s : Scan) (root : Node) (f : Finding) (n m : Node) : Prop :=
  ∃ visit rule found fixes t e, s.Applies root visit rule found ∧
    s.fixes rule visit.node found = .ok fixes ∧
    f = ⟨rule.name, found.span, visit.node.kindName, found.bindings, fixes⟩ ∧
    rule.after.head? = some t ∧ t.body = .expr e ∧
    n = visit.node ∧ m = e.instantiate found.bindings visit.node.precedence

/-- Nodes are replaced just as the kept findings propose. -/
structure CarriesOut (s : Scan) (root : Node) (kept : List Finding) (r : Node → Option Node) :
    Prop where
  proposed : ∀ n m, r n = some m → ∃ f ∈ kept, s.Proposes root f n m
  complete : ∀ f ∈ kept, ∀ n m, s.Proposes root f n m → (r n).isSome = true

/-- There is always such a replacement. -/
theorem exists_carriesOut (s : Scan) (root : Node) (kept : List Finding) :
    ∃ r, s.CarriesOut root kept r := by
  classical
  refine ⟨fun n => if h : ∃ m, ∃ f ∈ kept, s.Proposes root f n m then some h.choose else none,
    ⟨fun n m hr => ?_, fun f hf n m hm => ?_⟩⟩
  · obtain ⟨h, hchoose⟩ := Option.dite_none_right_eq_some.1 hr
    obtain rfl := Option.some.inj hchoose
    exact h.choose_spec
  · rw [dif_pos ⟨m, f, hf, hm⟩]
    rfl

/-! ## One proposal -/

/-- Every finding of an expression rule proposes something. -/
theorem exists_proposes (hrules : s.RewritesExpressions) {fs : List Finding}
    (hfs : s.findings root = .ok fs) (hf : f ∈ fs) : ∃ n m, s.Proposes root f n m := by
  obtain ⟨visit, rule, found, fixes, happlies, hfixes, hfinding⟩ := exists_of_mem_findings hfs hf
  obtain ⟨hafter, hexpr⟩ := hrules rule happlies.scanned
  obtain ⟨t, ts, hts⟩ := List.exists_cons_of_ne_nil hafter
  have ht : t ∈ rule.before ++ rule.after := by simp [hts]
  obtain ⟨e, hbody⟩ := Template.exists_body_of_isExpression (hexpr t ht)
  exact ⟨visit.node, _, visit, rule, found, fixes, t, e, happlies, hfixes, hfinding,
    by rw [hts]; rfl, hbody, rfl, rfl⟩

/-- A node that something is proposed for stands in the tree. -/
theorem Proposes.stands (h : s.Proposes root f n m) : ∃ depth, root.Stands depth n := by
  obtain ⟨visit, _, _, _, _, _, happlies, -, -, -, -, rfl, -⟩ := h
  exact Node.exists_stands_of_mem_scanVisits happlies.visited

/-- What an expression rule finds is an instance of an expression. -/
theorem Applies.exists_expr {visit : Visit} {rule : Rule} {found : Instance}
    (happlies : s.Applies root visit rule found) (hrules : s.RewritesExpressions) :
    ∃ (t : Template) (e : Template.Expr), t.body = .expr e ∧
      found ∈ t.instances s.oracle visit.node visit.ancestors.head? := by
  obtain ⟨t, ht, hfound⟩ := exists_template_of_mem_instances happlies.matched
  have hexpr := (hrules rule happlies.scanned).2 t (List.mem_append_left _ ht)
  obtain ⟨e, hbody⟩ := Template.exists_body_of_isExpression hexpr
  exact ⟨t, e, hbody, hfound⟩

/-- No proposal is for grouping parentheses. -/
theorem Proposes.isParen_eq_false (hrules : s.RewritesExpressions)
    (h : s.Proposes root f n m) : n.isParen = false := by
  obtain ⟨visit, rule, found, _, _, _, happlies, -, -, -, -, rfl, -⟩ := h
  obtain ⟨t, e, hbody, hfound⟩ := happlies.exists_expr hrules
  exact ((Template.mem_instances_expr_iff hbody).1 hfound).2.1

/-- The finding is made where the proposal is for. -/
theorem Proposes.span_eq (hrules : s.RewritesExpressions) (h : s.Proposes root f n m) :
    f.span = n.span := by
  obtain ⟨visit, rule, found, _, _, _, happlies, -, rfl, -, -, rfl, -⟩ := h
  obtain ⟨t, e, hbody, hfound⟩ := happlies.exists_expr hrules
  obtain ⟨-, -, ds, b, -, -, rfl⟩ := (Template.mem_instances_expr_iff hbody).1 hfound
  rfl

/-- **A proposal is made by one edit**, which puts the print of the proposed tree
where the node has its own. -/
theorem Proposes.edits_eq (hsource : s.source = tree.print) (htree : tree.IsWritten)
    (hrules : s.RewritesExpressions) (h : s.Proposes tree.laidOut f n m)
    (hn : tree.laidOut.Stands depth n) : f.edits = [⟨n.span, m.text depth⟩] := by
  have hspan := h.span_eq hrules
  obtain ⟨visit, rule, found, fixes, t, e, happlies, hfixes, rfl, ht, hbody, rfl, rfl⟩ := h
  obtain ⟨before, e', hbody', hfound⟩ := happlies.exists_expr hrules
  dsimp only at hspan
  obtain ⟨replacement, hrender, hfix⟩ := head?_of_fixes_eq_ok hfixes ht
  rw [Template.render, hbody] at hrender
  -- What is bound stands in the tree, so the source reads as its print.
  have hreads : RenderContext.ReadsBound ⟨s.oracle, s.source, rule.name, t.name, found.bindings⟩
      depth := by
    intro name bound hbound
    have hstands := Template.stands_of_mem_instances hbody' hfound hn hbound
    obtain ⟨hbytes, hslice⟩ := (Node.liesIn_of_stands htree hstands).slice?
    have hempty : bound.node.span.isEmpty = false := by
      simp [Span.isEmpty]
      omega
    simp only [Rendering.sourceOf, hsource, hslice, hempty]
    rfl
  have htext := RenderContext.text_instantiate hreads hrender
  simp only [Finding.edits, Finding.preferredFix?, hfix, hspan, htext]

/-! ## All proposals -/

/-- What is carried out keeps grouping parentheses. -/
theorem CarriesOut.keepsParens {kept : List Finding} {r : Node → Option Node}
    (hrules : s.RewritesExpressions) (hr : s.CarriesOut root kept r) : Node.KeepsParens r := by
  intro n hparen
  cases hreplaced : r n with
  | none => rfl
  | some m =>
    obtain ⟨f, -, hproposes⟩ := hr.proposed n m hreplaced
    exact absurd hparen (by simp [hproposes.isParen_eq_false hrules])

/-- **The kept edits are those that rewrite the tree.** Of kept findings that
propose something for one node the edits are the same, and none proposes
something for a node within another's. -/
theorem mem_edits_iff_mem_rewrites (hsource : s.source = tree.print) (htree : tree.IsWritten)
    (hrules : s.RewritesExpressions) {kept : List Finding}
    (hkept : ∀ f ∈ kept, ∃ n m, s.Proposes tree.laidOut f n m)
    (hclash : ∀ f ∈ kept, ∀ g ∈ kept, f.clashesWith g = false) {r : Node → Option Node}
    (hr : s.CarriesOut tree.laidOut kept r) (e : Edit) :
    (∃ f ∈ kept, e ∈ f.edits) ↔ e ∈ tree.laidOut.rewrites r 0 := by
  constructor
  · rintro ⟨f, hf, he⟩
    obtain ⟨n, m, hproposes⟩ := hkept f hf
    obtain ⟨depth, hn⟩ := hproposes.stands
    have hbytes := (Node.liesIn_of_stands htree hn).slice?.1
    have hagrees {g : Finding} (hg : g ∈ kept) {e' : Edit} (hedits : g.edits = [e']) :
        e'.conflictsWith e = false :=
      Finding.clashesWith_eq_false_iff.1 (hclash g hg f hf) e' (by simp [hedits]) e he
    rw [hproposes.edits_eq hsource htree hrules hn] at he
    obtain rfl := List.mem_singleton.1 he
    rcases Node.rewrites_subset_of_stands (r := r) htree hn with hsub | ⟨outer, houter, hreplaced⟩
    -- The edit of what is put in place of the node is the same, or they would conflict.
    · obtain ⟨m', hm'⟩ := Option.isSome_iff_exists.1 (hr.complete f hf n m hproposes)
      obtain ⟨g, hg, hproposes'⟩ := hr.proposed n m' hm'
      have hedits := hproposes'.edits_eq hsource htree hrules hn
      have hsame : (⟨n.span, m'.text depth⟩ : Edit) = ⟨n.span, m.text depth⟩ :=
        Edit.eq_of_span_eq rfl hbytes (hagrees hg hedits)
      rw [← hsame]
      exact hsub (by rw [Node.rewrites_of_some hm']; exact List.mem_singleton_self _)
    -- And the edit of a node further out conflicts with this one.
    · obtain ⟨m', hm'⟩ := Option.isSome_iff_exists.1 hreplaced
      obtain ⟨g, hg, hproposes'⟩ := hr.proposed outer m' hm'
      obtain ⟨depth', houterStands⟩ := houter.stands
      have hedits := hproposes'.edits_eq hsource htree hrules houterStands
      have hconflict := Edit.conflictsWith_of_encloses
        (a := ⟨outer.span, m'.text depth'⟩) (b := ⟨n.span, m.text depth⟩)
        houter.start_le houter.stop_le hbytes houter.longer
      exact absurd hconflict (by simp [hagrees hg hedits])
  · intro he
    obtain ⟨depth, n, m, hn, hreplaced, rfl⟩ := Node.exists_of_mem_rewrites .root he
    obtain ⟨f, hf, hproposes⟩ := hr.proposed n m hreplaced
    refine ⟨f, hf, ?_⟩
    rw [hproposes.edits_eq hsource htree hrules hn]
    exact List.mem_singleton_self _

/-- The edits that rewrite a tree are in the order of scripts. -/
theorem pairwise_precedes_rewrites (htree : tree.IsWritten) {r : Node → Option Node}
    (hr : Node.KeepsParens r) :
    (tree.laidOut.rewrites r 0).Pairwise EditScript.Precedes := by
  have hbytes : ∀ e ∈ tree.laidOut.rewrites r 0, e.span.start < e.span.stop := by
    intro e he
    obtain ⟨depth, n, m, hn, -, rfl⟩ := Node.exists_of_mem_rewrites .root he
    exact (Node.liesIn_of_stands htree hn).slice?.1
  have hordered := (Node.turns_rewrites hr htree 0 0).pairwise_stop_le
  refine hordered.imp_of_mem fun {a b} ha hb hstop => ?_
  have hbytesA := hbytes a ha
  have hbytesB := hbytes b hb
  refine ⟨Edit.le_iff.2 (.inl (Span.precedes_iff.2 (.inl (by omega)))), fun hsame => ?_⟩
  rw [hsame] at hstop
  omega

/-- What is carried out is what the script of the kept findings does. -/
theorem CarriesOut.exists_script (hsource : s.source = tree.print) (htree : tree.IsWritten)
    (hrules : s.RewritesExpressions) {fs : List Finding}
    (hfs : s.findings tree.laidOut = .ok fs) {r : Node → Option Node}
    (hr : s.CarriesOut tree.laidOut (Finding.selectCompatible fs) r) :
    ∃ script, EditScript.compose (Finding.selectCompatible fs) s.source = .ok script ∧
      script.apply s.source = (tree.laidOut.replace r).print := by
  have hfound : ∀ f ∈ fs, ∃ depth n, ∃ m : Node, tree.laidOut.Stands depth n ∧
      f.edits = [⟨n.span, m.text depth⟩] := by
    intro f hf
    obtain ⟨n, m, hproposes⟩ := exists_proposes hrules hfs hf
    obtain ⟨depth, hn⟩ := hproposes.stands
    exact ⟨depth, n, m, hn, hproposes.edits_eq hsource htree hrules hn⟩
  have hfits : ∀ f ∈ fs, ∀ e ∈ f.edits, ∃ text, e.span.slice? s.source = some text := by
    intro f hf e he
    obtain ⟨depth, n, m, hn, hedits⟩ := hfound f hf
    rw [hedits] at he
    obtain rfl := List.mem_singleton.1 he
    rw [hsource]
    exact ⟨_, (Node.liesIn_of_stands htree hn).slice?.2⟩
  have hself : ∀ f ∈ fs, f.clashesWith f = false := by
    intro f hf
    obtain ⟨depth, n, m, -, hedits⟩ := hfound f hf
    rw [Finding.clashesWith_eq_false_iff, hedits]
    simp
  have hkeeps := hr.keepsParens hrules
  have hmem := mem_edits_iff_mem_rewrites hsource htree hrules
    (fun f hf => exists_proposes hrules hfs (Finding.mem_of_mem_selectCompatible hf))
    (fun f hf g hg => Finding.not_clashesWith_of_mem_selectCompatible hself hf hg) hr
  obtain ⟨script, hcompose, hedits⟩ := EditScript.compose_selectCompatible hfits hself hmem
    (pairwise_precedes_rewrites htree hkeeps)
  refine ⟨script, hcompose, ?_⟩
  rw [EditScript.apply, hedits, hsource]
  exact (Node.turns_rewrites hkeeps htree 0 0).applyFrom_eq

/-- **Editing the source rewrites the tree.** A scan of a tree that lies in its
print, with rules of expressions only, gives findings whose selection makes a
script. Its application gives the print of the tree in which each node that a
kept finding was made at is replaced by what the finding proposes. -/
theorem exists_script_apply_eq_print (hsource : s.source = tree.print) (htree : tree.IsWritten)
    (hrules : s.RewritesExpressions) {fs : List Finding}
    (hfs : s.findings tree.laidOut = .ok fs) :
    ∃ script, EditScript.compose (Finding.selectCompatible fs) s.source = .ok script ∧
      (∃ r, s.CarriesOut tree.laidOut (Finding.selectCompatible fs) r) ∧
      ∀ r, s.CarriesOut tree.laidOut (Finding.selectCompatible fs) r →
        script.apply s.source = (tree.laidOut.replace r).print := by
  obtain ⟨r, hr⟩ := exists_carriesOut s tree.laidOut (Finding.selectCompatible fs)
  obtain ⟨script, hcompose, -⟩ := hr.exists_script hsource htree hrules hfs
  refine ⟨script, hcompose, ⟨r, hr⟩, fun r' hr' => ?_⟩
  obtain ⟨script', hcompose', happly⟩ := hr'.exists_script hsource htree hrules hfs
  rw [hcompose] at hcompose'
  rw [Except.ok.inj hcompose']
  exact happly

/-! ## A product with a negated factor -/

/-- A rule that writes a negated number as a difference. -/
def differenceRule : Rule where
  name := "com.example.Difference"
  before := [⟨"before", [], [⟨"a", .plain "int", none⟩], .plain "int",
    .expr (.unary .neg (.placeholder "a"))⟩]
  after := [⟨"after", [], [⟨"a", .plain "int", none⟩], .plain "int",
    .expr (.binary .sub (.literal (.int 0)) (.placeholder "a"))⟩]
  descriptor := ⟨false, none, none, none⟩

/-- A name for a number. -/
def number (name : String) : Node := (Fresh.ident name).typed (.plain "int")

/-- `-x` -/
def negated : Node := Fresh.unary .neg (number "x")

/-- `-x * y` -/
def product : Node := Fresh.binary .mul negated (number "y")

/-- A scan of its print for that rule alone. -/
def differenceScan : Scan :=
  ⟨[differenceRule], Hierarchy.javaLang.oracle, "-x * y", Suppression.nowhere⟩

/-- What that finds. -/
def negationFinding : Finding where
  rule := "com.example.Difference"
  span := ⟨0, 2⟩
  nodeKind := "unary"
  bindings := Bindings.empty.bindExpr "a" ⟨(number "x").place 0 1, .plain "int"⟩
  fixes := [⟨[⟨⟨0, 2⟩, "(0 - x)"⟩], .empty⟩]

theorem findings_differenceScan :
    differenceScan.findings product.laidOut = .ok [negationFinding] := by
  have hproduct : product.laidOut.scanChildren = [negated.place 0 0, (number "y").place 0 5] :=
    rfl
  have hnegated : (negated.place 0 0).scanChildren = [(number "x").place 0 1] := rfl
  have hx : ((number "x").place 0 1).scanChildren = [] := rfl
  have hy : ((number "y").place 0 5).scanChildren = [] := rfl
  unfold findings run
  simp only [Node.scanVisits, Node.scanVisitsUnder_eq, hproduct, hnegated, hx, hy,
    List.flatMap_cons, List.flatMap_nil]
  rfl

theorem isWritten_product : product.IsWritten := by
  have hleaf (name : String) (h : name ≠ "") : (number name).IsWritten :=
    Node.isWritten_iff.2 ⟨h, nofun⟩
  refine Node.isWritten_iff.2
    ⟨trivial, List.forall_mem_cons.2 ⟨?_, List.forall_mem_singleton.2 ?_⟩⟩
  · exact Node.isWritten_iff.2 ⟨trivial, List.forall_mem_singleton.2 (hleaf "x" (by decide))⟩
  · exact hleaf "y" (by decide)

theorem rewritesExpressions_differenceScan : differenceScan.RewritesExpressions := by
  intro rule hrule
  obtain rfl := List.mem_singleton.1 hrule
  exact ⟨by decide, by decide⟩

theorem compose_negationFinding :
    EditScript.compose (Finding.selectCompatible [negationFinding]) differenceScan.source =
      .ok ⟨[⟨⟨0, 2⟩, "(0 - x)"⟩], .empty⟩ := by
  have hselected : Finding.selectCompatible [negationFinding] = [negationFinding] := by
    simp [Finding.selectCompatible, Finding.keep]
  have hproposals : [negationFinding].flatMap (fun f => f.edits.map (f.rule, ·)) =
      [("com.example.Difference", ⟨⟨0, 2⟩, "(0 - x)"⟩)] := rfl
  rw [hselected, EditScript.compose, hproposals, EditScript.ofProposals, List.mergeSort_singleton]
  rfl

/-- The difference is put in parentheses, as it binds less tightly than the
negation in whose place it stands. -/
theorem print_replace_product :
    ∃ r, differenceScan.CarriesOut product.laidOut (Finding.selectCompatible [negationFinding]) r ∧
      (product.laidOut.replace r).print = "(0 - x) * y" := by
  have hsource : differenceScan.source = product.print := by decide
  obtain ⟨script, hcompose, ⟨r, hr⟩, happly⟩ := exists_script_apply_eq_print hsource
    isWritten_product rewritesExpressions_differenceScan findings_differenceScan
  rw [compose_negationFinding] at hcompose
  obtain rfl := Except.ok.inj hcompose
  refine ⟨r, hr, ?_⟩
  rw [← happly r hr]
  decide +kernel

end Scan

end Codemod
