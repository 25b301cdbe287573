import Codemod.Proofs.Template.Canonical
import Codemod.Proofs.Template.Instantiation
import Codemod.Proofs.Template.Rendering
import Codemod.Proofs.Template.Standing
import Codemod.Proofs.Template.Windows
/-!
# Rendering undoes matching

Code that matches a template is what the template stands for there. So when the
template is rendered with what it was matched with, the text that comes out is
the one that was matched, if the code is canonical and lies in its print
(`Template.render_of_mem_instances`).

Matching leaves demands, and rendering looks up names. The two meet in
`Demand.IsRealised`, which says of each demand what the names stand for in the
end: a placeholder for an expression with the print of every expression it is
used for, a local for the local it is renamed to, a declared type for the actual
one. From this the text of an expression is restored construct by construct
(`Template.Agrees.restores`).
-/

namespace Codemod

open Rendering Outcome Layout Text

/-! ## Source texts -/

namespace Node

variable {source : String} {depth : Nat} {n : Node}

/-- What is printed as nothing is printed as nothing at any depth. -/
theorem print_of_width_eq_zero (h : n.width depth = 0) : n.print = n.text depth := by
  cases hchildren : n.children with
  | cons c rest =>
    have hc : c ∈ n.children := by rw [hchildren]; exact List.mem_cons_self
    have hlt : c.width (n.childDepth depth) < n.width depth := width_lt_of_mem_children hc
    omega
  | nil =>
    cases n
    case ident | literal => rfl
    case ret _ e =>
      cases e with
      | none => exact absurd h (Nat.succ_ne_zero _)
      | some e => exact absurd hchildren nofun
    case localVar _ _ _ init =>
      cases init with
      | none => exact absurd h (Nat.succ_ne_zero _)
      | some e => exact absurd hchildren nofun
    case methodDecl _ _ body =>
      cases body with
      | none => exact absurd h (Nat.succ_ne_zero _)
      | some e => exact absurd hchildren nofun
    case block | classDecl | unit => exact absurd h (Nat.succ_ne_zero _)
    all_goals exact absurd hchildren nofun

/-- **The source text of what is placed in the source is its print.** -/
theorem PlacedIn.sourceOf (h : n.PlacedIn source depth) : sourceOf source n = n.text depth := by
  rw [Rendering.sourceOf, h.slice?.2]
  dsimp only
  split
  · rename_i hempty
    obtain ⟨bare, l, r, rfl, -⟩ := h
    refine print_of_width_eq_zero ?_
    rw [span_place, Span.isEmpty, decide_eq_true_eq] at hempty
    dsimp only at hempty
    rw [width_eq, text_place, ← width_eq]
    omega
  · rfl

end Node

namespace Template

open Demand

variable {o : TypeOracle} {t : Template} {b : Bindings} {depth required : Nat}

/-! ## Realised demands -/

/-- What the names of a template stand for is what the demand asked for. -/
def Demand.IsRealised (b : Bindings) (depth : Nat) : Demand → Prop
  | .use name node _ => ∃ bound, b.get? name = some bound ∧
      bound.node.text depth = node.text depth ∧ bound.node.precedence = node.precedence
  | .rename template code => b.locals.get? template = some code
  | .agree declared actual => declared.substitute b.types = actual
  | .fit _ _ => True

/-- **Demands of canonical code are realised** by the bindings that meet them. -/
theorem isRealised_of_meetAll? {ds : List Demand} (hmeet : meetAll? o t ds .empty = some b)
    (hcode : ∀ d ∈ ds, ∃ n : Node, n.IsCanonical ∧ d.IsAbout n) :
    ∀ d ∈ ds, d.IsRealised b depth := by
  intro d hd
  have huses : ∀ {name : String} {node : Node}, (name, node) ∈ uses ds →
      node.IsCanonical ∧ node.isParen = false := by
    intro name node huse
    obtain ⟨d, hd, hmakes⟩ := List.mem_filterMap.1 huse
    cases d with
    | use name' node' parent =>
      obtain ⟨rfl, rfl⟩ := Prod.mk.inj (Option.some.inj hmakes)
      obtain ⟨n, hn, rfl, hparen⟩ := hcode _ hd
      exact ⟨hn, hparen⟩
    | _ => exact absurd hmakes nofun
  cases d with
  | use name node parent =>
    have huse : (name, node) ∈ uses ds := List.mem_filterMap.2 ⟨_, hd, rfl⟩
    obtain ⟨bound, hbound⟩ := Option.isSome_iff_exists.1 (isSome_of_meetAll? hmeet huse)
    refine ⟨bound, hbound, ?_⟩
    rcases sameShape_of_meetAll? hmeet huse hbound with hsame | hshape
    · rw [hsame]
      exact ⟨rfl, rfl⟩
    · have huse' : (name, bound.node) ∈ uses ds :=
        (get?_of_meetAll? hmeet hbound).resolve_left (by simp)
      have hsame : Node.text depth _ = Node.text depth _ ∧ _ :=
        Node.text_eq_of_sameShape hshape (huses huse').1 (huses huse).1
      rwa [Node.skipParens_eq_self (huses huse').2, Node.skipParens_eq_self (huses huse).2] at hsame
  | rename template code => exact get?_locals_of_meetAll? hmeet hd
  | agree declared actual =>
    obtain ⟨n, hn, habout⟩ := hcode _ hd
    have hclosed : actual.mentionsVar = false := by
      rcases habout with ⟨info, expr, rfl⟩ | ⟨info, name, init, rfl⟩
      · exact hn.isConventional.1
      · exact hn.isConventional.1
    exact Ty.eq_of_equivalent (equivalent_of_meetAll? hmeet hd) hclosed
  | fit declared actual => trivial

/-! ## Restored expressions -/

/-- A key denotes methods of its name only. -/
theorem name_eq_of_denotes {method : MethodKey} {called : MethodSymbol}
    (h : method.denotes o called = true) : method.name = called.name := by
  simp only [MethodKey.denotes, Bool.and_eq_true, beq_iff_eq] at h
  exact h.1.1

/-- The expression is rendered as the code: its placeholders are bound, and the
tree that it stands for has the print of the code. -/
structure Restores (b : Bindings) (depth required : Nat) (e : Expr) (code : Node) : Prop where
  bound : ∀ name ∈ e.placeholderUses, (b.get? name).isSome = true
  text : (e.instantiate b required).text depth = code.text depth

/-- To restore code at a place is to restore what its parentheses group. -/
theorem text_of_grouped {code core n : Node} (hgrouped : code.IsGrouped required)
    (hcode : code.skipParens = n) (htext : core.text depth = n.text depth)
    (hprecedence : core.precedence = n.precedence) :
    (core.grouped required).text depth = code.text depth := by
  rw [Node.text_grouped, hgrouped.text_eq, hcode, htext, hprecedence]

mutual

/-- **An expression restores the canonical code that it agrees with.** -/
theorem Agrees.restores {e : Expr} {code : Node} {parent : Option Node} {ds : List Demand}
    {required : Nat} (h : Agrees o e code parent ds) (hcode : code.IsCanonical)
    (hgrouped : code.IsGrouped required) (hds : ∀ d ∈ ds, d.IsRealised b depth) :
    Restores b depth required e code := by
  have hskipped := hcode.skipParens
  have hself := hskipped.isConventional
  match e with
  | .placeholder name =>
    cases h
    obtain ⟨bound, hbound, htext, hprecedence⟩ := hds _ (List.mem_singleton_self _)
    constructor
    · intro name' hname
      obtain rfl := List.mem_singleton.1 hname
      exact Option.isSome_of_eq_some hbound
    · rw [Expr.instantiate, Expr.boundNode, hbound]
      exact text_of_grouped hgrouped rfl htext hprecedence
  | .localRef name =>
    cases h with
    | localRef hcode' hsymbol =>
      rw [hcode'] at hself
      rw [Node.IsConventional, hsymbol] at hself
      have hlocal : b.locals.get? name = some _ := hds _ (List.mem_singleton_self _)
      refine ⟨nofun, text_of_grouped hgrouped hcode' ?_ rfl⟩
      rw [hlocal, hself]
      rfl
  | .literal value =>
    cases h with
    | literal hcode' hvalue =>
      rw [hcode'] at hself
      rcases Literal.beq_iff.1 hvalue with ⟨x, -, hfloat, -⟩ | ⟨-, rfl⟩
      · exact absurd hfloat (hself x)
      · exact ⟨nofun, text_of_grouped hgrouped hcode' rfl rfl⟩
  | .classRef name =>
    cases h with
    | classRef hcls =>
      obtain ⟨info, hcode'⟩ := hself.eq_ident_of_refersToClass hcls
      exact ⟨nofun, text_of_grouped hgrouped hcode' rfl rfl⟩
  | .field receiver name =>
    cases h with
    | field hcode' hds' =>
      rw [hcode'] at hskipped hself
      have hreceiver := hds'.restores (hskipped.child List.mem_cons_self) hself.2 hds
      refine ⟨hreceiver.bound, text_of_grouped hgrouped hcode' ?_ rfl⟩
      rw [Fresh.select, Node.text, hreceiver.text]
      rfl
    | importedField hcode' hsymbol =>
      rw [hcode', Node.IsConventional, hsymbol] at hself
      exact absurd hself not_false
  | .call receiver method args =>
    cases h with
    | call hcode' hcalled hdenotes hds' hes =>
      rw [hcode'] at hskipped hself hcalled
      obtain ⟨⟨_, _, _, _, hselect, hname⟩, hargs⟩ := hself
      obtain ⟨-, -, rfl, -⟩ := Node.select.inj hselect
      obtain ⟨hleft, hright⟩ := List.forall_mem_append.1 hds
      -- The callee is a selection, so the receiver is grouped as its target.
      have hcallee := hskipped.child List.mem_cons_self
      have hreceiver := hds'.restores (hcallee.child List.mem_cons_self)
        hcallee.isConventional.2 hleft
      obtain ⟨hbound, htexts⟩ := hes.restores
        (fun c hc => ⟨hskipped.child (List.mem_cons_of_mem _ hc), hargs c hc⟩) hright
      refine ⟨List.forall_mem_append.2 ⟨hreceiver.bound, hbound⟩,
        text_of_grouped hgrouped hcode' ?_ rfl⟩
      rw [Fresh.select, Node.text, Node.text, Node.text, Node.text, hreceiver.text, htexts,
        name_eq_of_denotes hdenotes, hname _ hcalled]
    | importedCall hcode' _ _ _ _ =>
      rw [hcode'] at hself
      obtain ⟨⟨_, _, _, _, hselect, -⟩, -⟩ := hself
      exact absurd hselect nofun
  | .methodRef receiver method =>
    cases h with
    | methodRef hcode' hcalled hdenotes hds' =>
      rw [hcode'] at hskipped hself hcalled
      have hreceiver := hds'.restores (hskipped.child List.mem_cons_self) hself.2 hds
      refine ⟨hreceiver.bound, text_of_grouped hgrouped hcode' ?_ rfl⟩
      rw [Node.text, Node.text, hreceiver.text, name_eq_of_denotes hdenotes, hself.1 _ hcalled]
  | .unary op operand =>
    cases h with
    | unary hcode' hds' =>
      rw [hcode'] at hskipped hself
      have hoperand := hds'.restores (hskipped.child List.mem_cons_self) hself hds
      refine ⟨hoperand.bound, text_of_grouped hgrouped hcode' ?_ rfl⟩
      rw [Node.text, Node.text, hoperand.text]
  | .binary op lhs rhs =>
    cases h with
    | binary hcode' hds' hes =>
      rw [hcode'] at hskipped hself
      obtain ⟨hleft, hright⟩ := List.forall_mem_append.1 hds
      have hlhs := hds'.restores (hskipped.child List.mem_cons_self) hself.1 hleft
      have hrhs := hes.restores
        (hskipped.child (List.mem_cons_of_mem _ List.mem_cons_self)) hself.2 hright
      refine ⟨List.forall_mem_append.2 ⟨hlhs.bound, hrhs.bound⟩,
        text_of_grouped hgrouped hcode' ?_ rfl⟩
      rw [Node.text, Node.text, hlhs.text, hrhs.text]
  | .cast target expr =>
    cases h with
    | cast hcode' hds' =>
      rw [hcode'] at hskipped hself
      obtain ⟨hty, hds⟩ := List.forall_mem_cons.1 hds
      have hexpr := hds'.restores (hskipped.child List.mem_cons_self) hself.2 hds
      refine ⟨hexpr.bound, text_of_grouped hgrouped hcode' ?_ rfl⟩
      rw [Node.text, Node.text, hexpr.text, hty]

theorem AgreesAll.restores {es : List Expr} {codes : List Node} {parent : Option Node}
    {ds : List Demand} (h : AgreesAll o es codes parent ds)
    (hcodes : ∀ c ∈ codes, c.IsCanonical ∧ c.IsGrouped 0)
    (hds : ∀ d ∈ ds, d.IsRealised b depth) :
    (∀ name ∈ Expr.allPlaceholderUses es, (b.get? name).isSome = true) ∧
      Node.texts depth (Expr.instantiateAll b es) = Node.texts depth codes := by
  match es with
  | [] => cases h; exact ⟨nofun, rfl⟩
  | e :: es =>
    cases h with
    | cons he hrest =>
      obtain ⟨hleft, hright⟩ := List.forall_mem_append.1 hds
      obtain ⟨hcode, hcodes⟩ := List.forall_mem_cons.1 hcodes
      have hfirst := he.restores hcode.1 hcode.2 hleft
      obtain ⟨hbound, htexts⟩ := hrest.restores hcodes hright
      refine ⟨List.forall_mem_append.2 ⟨hfirst.bound, hbound⟩, ?_⟩
      rw [Expr.instantiateAll, Node.texts, Node.texts, hfirst.text, htexts]

end

/-! ## Restored statements -/

variable {c : RenderContext}

/-- The text of an expression that restores code is the print of the code. -/
theorem Restores.text_of_renderExpr {e : Expr} {code : Node} {r : Replacement}
    (h : Restores c.bindings depth required e code) (hreads : c.ReadsBound depth)
    (hr : c.renderExpr e required = .ok r) : r.text = code.text depth :=
  (RenderContext.text_instantiate hreads hr).trans h.text

/-- A type that has to agree with one in the code is rendered as that. -/
theorem text_of_renderTy {declared actual : Ty} {r : Replacement}
    (hrealised : (Demand.agree declared actual).IsRealised c.bindings depth)
    (hr : c.renderTy declared = .ok r) : r.text = actual.toSource := by
  obtain ⟨imports, -, hr⟩ := bind_eq_ok_iff.1 hr
  obtain rfl := pure_eq_ok_iff.1 hr
  exact congrArg Ty.toSource hrealised

/-- **A statement is rendered as the canonical statement that it agrees with.** -/
theorem AgreesStmt.text_of_renderStmt {s : Stmt} {code : Node} {ds : List Demand}
    (h : AgreesStmt o s code ds) (hcode : code.IsCanonical)
    (hds : ∀ d ∈ ds, d.IsRealised c.bindings depth) (hreads : c.ReadsBound depth)
    {r : Replacement} (hr : c.renderStmt s = .ok r) : r.text = code.text depth := by
  have hself := hcode.isConventional
  have hlocal : ∀ {name code : String}, c.bindings.locals.get? name = some code →
      c.renderLocal name = code := by
    intro name code hget
    rw [RenderContext.renderLocal, hget, Option.getD_some]
  cases h with
  | expr he =>
    have hrestores := he.restores (hcode.child List.mem_cons_self) hself hds
    obtain ⟨inner, hinner, hr⟩ := bind_eq_ok_iff.1 hr
    obtain rfl := pure_eq_ok_iff.1 hr
    rw [Node.text, ← hrestores.text_of_renderExpr hreads hinner]
  | retNone =>
    obtain rfl := Except.ok.inj hr
    rfl
  | ret he =>
    have hrestores := he.restores (hcode.child List.mem_cons_self) (hself _ rfl) hds
    obtain ⟨inner, hinner, hr⟩ := bind_eq_ok_iff.1 hr
    obtain rfl := pure_eq_ok_iff.1 hr
    rw [Node.text, ← hrestores.text_of_renderExpr hreads hinner]
  | localVar =>
    obtain ⟨hrename, hds⟩ := List.forall_mem_cons.1 hds
    obtain ⟨hagree, -⟩ := List.forall_mem_cons.1 hds
    obtain ⟨ty, hty, hr⟩ := bind_eq_ok_iff.1 hr
    obtain rfl := pure_eq_ok_iff.1 hr
    rw [Node.text, Layout.localHead, ← text_of_renderTy hagree hty, ← hlocal hrename]
  | localInit he =>
    obtain ⟨hrename, hds⟩ := List.forall_mem_cons.1 hds
    obtain ⟨hagree, hds⟩ := List.forall_mem_cons.1 hds
    have hrestores := he.restores (hcode.child List.mem_cons_self) (hself.2 _ rfl) hds
    obtain ⟨ty, hty, hr⟩ := bind_eq_ok_iff.1 hr
    obtain ⟨inner, hinner, hr⟩ := bind_eq_ok_iff.1 hr
    obtain rfl := pure_eq_ok_iff.1 hr
    rw [Node.text, Layout.localHead, ← text_of_renderTy hagree hty, ← hlocal hrename,
      ← hrestores.text_of_renderExpr hreads hinner]

theorem AgreesStmts.texts_of_renderStmts {stmts : List Stmt} {codes : List Node}
    {ds : List Demand} (h : AgreesStmts o stmts codes ds) (hlength : codes.length = stmts.length)
    (hcodes : ∀ n ∈ codes, n.IsCanonical) (hds : ∀ d ∈ ds, d.IsRealised c.bindings depth)
    (hreads : c.ReadsBound depth) {rs : List String × NameSet}
    (hr : c.renderStmts stmts = .ok rs) : rs.1 = Node.texts depth codes := by
  induction h generalizing rs with
  | nil =>
    obtain rfl := Except.ok.inj hr
    rw [List.length_eq_zero_iff.1 hlength]
    rfl
  | cons hs _ ih =>
    obtain ⟨hcode, hcodes⟩ := List.forall_mem_cons.1 hcodes
    obtain ⟨hleft, hright⟩ := List.forall_mem_append.1 hds
    obtain ⟨first, hfirst, hr⟩ := bind_eq_ok_iff.1 hr
    obtain ⟨rest, hrest, hr⟩ := bind_eq_ok_iff.1 hr
    obtain rfl := pure_eq_ok_iff.1 hr
    rw [Node.texts, hs.text_of_renderStmt hcode hleft hreads hfirst,
      ih (Nat.succ.inj hlength) hcodes hright hrest]

/-- The placeholders of a statement that agrees with canonical code are bound. -/
theorem AgreesStmt.isSome_of_mem_placeholderUses {s : Stmt} {code : Node} {ds : List Demand}
    (h : AgreesStmt o s code ds) (hcode : code.IsCanonical)
    (hds : ∀ d ∈ ds, d.IsRealised b depth) {e : Expr} (he : e ∈ s.expr?) :
    ∀ name ∈ e.placeholderUses, (b.get? name).isSome = true := by
  have hself := hcode.isConventional
  cases h with
  | expr h =>
    obtain rfl := Option.some.inj he
    exact (h.restores (hcode.child List.mem_cons_self) hself hds).bound
  | retNone => exact absurd he nofun
  | ret h =>
    obtain rfl := Option.some.inj he
    exact (h.restores (hcode.child List.mem_cons_self) (hself _ rfl) hds).bound
  | localVar => exact absurd he nofun
  | localInit h =>
    obtain rfl := Option.some.inj he
    obtain ⟨-, hds⟩ := List.forall_mem_cons.1 hds
    obtain ⟨-, hds⟩ := List.forall_mem_cons.1 hds
    exact (h.restores (hcode.child List.mem_cons_self) (hself.2 _ rfl) hds).bound

theorem AgreesStmts.isSome_of_mem_placeholderUses {stmts : List Stmt} {codes : List Node}
    {ds : List Demand} (h : AgreesStmts o stmts codes ds) (hcodes : ∀ n ∈ codes, n.IsCanonical)
    (hds : ∀ d ∈ ds, d.IsRealised b depth) {e : Expr} (he : e ∈ stmts.filterMap Stmt.expr?) :
    ∀ name ∈ e.placeholderUses, (b.get? name).isSome = true := by
  induction h with
  | nil => exact absurd he List.not_mem_nil
  | @cons s stmts code codes ds rest hs _ ih =>
    obtain ⟨hcode, hcodes⟩ := List.forall_mem_cons.1 hcodes
    obtain ⟨hleft, hright⟩ := List.forall_mem_append.1 hds
    obtain ⟨s', hs', hexpr⟩ := List.mem_filterMap.1 he
    rcases List.mem_cons.1 hs' with rfl | hlater
    · exact hs.isSome_of_mem_placeholderUses hcode hleft hexpr
    · exact ih hcodes hright (List.mem_filterMap.2 ⟨s', hlater, hexpr⟩)

/-! ## Restored code -/

variable {tree candidate : Node} {parent : Option Node} {o' : TypeOracle} {rule : String}
  {i : Instance}

/-- The rendering gives the text back, unless a class that it names does not
exist. -/
def RestoresText (text : String) (rendered : Except RenderError Replacement) : Prop :=
  (∃ rule name, rendered = .error (.unresolvedImport rule name)) ∨
    ∃ r, rendered = .ok r ∧ r.text = text

/-- Where all that a template refers to is bound, rendering it can only fail for
a missing class. -/
theorem restoresText_of_bound {source text : String} {span : Span} {precedence : Nat}
    (hbound : ∀ name ∈ t.referenced, (b.get? name).isSome = true)
    (htext : ∀ r, t.render o' source rule b span precedence = .ok r → r.text = text) :
    RestoresText text (t.render o' source rule b span precedence) := by
  cases hrender : t.render o' source rule b span precedence with
  | ok r => exact .inr ⟨r, rfl, htext r hrender⟩
  | error error =>
    cases error with
    | unresolvedPlaceholder rule' template name =>
      obtain ⟨-, -, hname, hunbound⟩ := of_render_eq_unresolved hrender
      exact absurd (hbound name hname) (by simp [hunbound])
    | unresolvedImport rule' name => exact .inl ⟨rule', name, rfl⟩

/-- What demands about code in a laid out tree bind reads as its print. -/
theorem readsBound_of_meetAll? {ds : List Demand} (hmeet : meetAll? o t ds .empty = some b)
    (hstands : ∀ d ∈ ds, ∃ n, tree.laidOut.Stands depth n ∧ d.IsAbout n) (template : String) :
    RenderContext.ReadsBound ⟨o', tree.print, rule, template, b⟩ depth := by
  intro name bound hbound
  have huse : (name, bound.node) ∈ uses ds :=
    (get?_of_meetAll? hmeet hbound).resolve_left (by simp)
  exact (Node.placedIn_of_stands (stands_of_mem_uses hstands huse)).sourceOf

/-- **An expression template gives back the expression that it matched.** -/
theorem exists_slice?_of_expr {e : Expr} (hbody : t.body = .expr e)
    (hstands : tree.laidOut.Stands depth candidate) (hcanonical : candidate.IsCanonical)
    (hi : i ∈ t.instances o candidate parent) :
    ∃ text, i.span.slice? tree.print = some text ∧
      RestoresText text
        (t.render o' tree.print rule i.bindings i.span candidate.precedence) := by
  obtain ⟨-, hparen, ds, b, hagrees, hmeet, rfl⟩ := (mem_instances_expr_iff hbody).1 hi
  -- The demand for the type of the whole is about no code in particular.
  have habout : ∀ {root : Node} {depth : Nat}, root.Stands depth candidate →
      ∀ d ∈ ds ++ t.resultDemands candidate, ∃ n, root.Stands depth n ∧ d.IsAbout n := by
    intro root depth hroot d hd
    rcases List.mem_append.1 hd with hd | hd
    · exact hagrees.exists_stands hroot hd
    · exact ⟨candidate, hroot, isAbout_of_mem_resultDemands hd⟩
  have hds : ∀ d ∈ ds ++ t.resultDemands candidate, d.IsRealised b depth :=
    isRealised_of_meetAll? hmeet fun d hd => by
      obtain ⟨n, hn, habout⟩ := habout .root d hd
      exact ⟨n, hcanonical.of_stands hn, habout⟩
  have hrestores := hagrees.restores hcanonical (Node.isGrouped_precedence hparen)
    (List.forall_mem_append.1 hds).1
  refine ⟨_, (Node.placedIn_of_stands hstands).slice?.2, restoresText_of_bound ?_ ?_⟩
  · intro name hname
    obtain ⟨e', he', huse⟩ := mem_referenced_iff.1 hname
    rw [hbody] at he'
    obtain rfl := List.mem_singleton.1 he'
    exact hrestores.bound name huse
  · intro r hr
    unfold render at hr
    rw [hbody] at hr
    exact hrestores.text_of_renderExpr (readsBound_of_meetAll? hmeet (habout hstands) t.name) hr

/-- **A block template gives back the statements that it matched**, provided that
the first of several does not begin with a blank or a tab. -/
theorem exists_slice?_of_block {stmts : List Stmt} (hbody : t.body = .block stmts)
    (hstands : tree.laidOut.Stands depth candidate) (hcanonical : candidate.IsCanonical)
    (hi : i ∈ t.instances o candidate parent)
    (hfirst : 1 < stmts.length → ∀ text, i.span.slice? tree.print = some text →
      ∀ c ∈ text.toList.head?, c ≠ ' ' ∧ c ≠ '\t') :
    ∃ text, i.span.slice? tree.print = some text ∧
      RestoresText text
        (t.render o' tree.print rule i.bindings i.span candidate.precedence) := by
  obtain ⟨hne, info, codes, rfl, window, hwindow, ds, b, hagrees, hmeet, rfl⟩ :=
    (mem_instances_block_iff hbody).1 hi
  have hmem := subset_of_mem_windows hwindow
  have habout : ∀ {root : Node} {depth : Nat}, root.Stands depth (.block info codes) →
      ∀ d ∈ ds, ∃ n, root.Stands (depth + 1) n ∧ d.IsAbout n :=
    fun hroot d hd => hagrees.exists_stands (fun c hc => hroot.child (hmem hc)) hd
  have hds : ∀ d ∈ ds, d.IsRealised b (depth + 1) :=
    isRealised_of_meetAll? hmeet fun d hd => by
      obtain ⟨n, hn, habout⟩ := habout .root d hd
      exact ⟨n, hcanonical.of_stands hn, habout⟩
  have hcodes : ∀ n ∈ window, n.IsCanonical := fun n hn => hcanonical.child (hmem hn)
  obtain ⟨hlength, m, ms, l, r, rfl, hsource⟩ := exists_run_of_placedIn
    (Node.placedIn_of_stands hstands) (mt List.length_eq_zero_iff.1 hne) hwindow
  have hslice := slice?_spanOf hsource
  refine ⟨_, hslice, restoresText_of_bound ?_ ?_⟩
  · intro name hname
    obtain ⟨e, he, huse⟩ := mem_referenced_iff.1 hname
    rw [hbody] at he
    exact hagrees.isSome_of_mem_placeholderUses hcodes hds he name huse
  · intro replacement hr
    unfold render at hr
    rw [hbody] at hr
    obtain ⟨rendered, hrendered, hr⟩ := bind_eq_ok_iff.1 hr
    obtain rfl := pure_eq_ok_iff.1 hr
    have htexts := hagrees.texts_of_renderStmts hlength hcodes hds
      (readsBound_of_meetAll? hmeet (habout hstands) t.name) hrendered
    rw [Node.texts_placeLines] at htexts
    dsimp only
    rw [htexts]
    cases ms with
    | nil => rw [Node.texts, Node.texts, String.intercalate_singleton, String.intercalate_singleton]
    | cons second ms =>
      have hseveral : 1 < stmts.length := by
        rw [← hlength]
        exact Nat.succ_lt_succ (Nat.succ_pos _)
      rw [indentAt_spanOf hsource (hfirst hseveral _ hslice)]
      rfl

/-- **Rendering undoes matching.** In a laid out tree, what a template matched of
canonical code is what it is rendered as in its place, if the classes that it
names exist. Statements are rendered on lines that are indented like the first,
so the first of several must not begin with a blank or a tab itself, which would
count as indentation. -/
theorem render_of_mem_instances (hstands : tree.laidOut.Stands depth candidate)
    (hcanonical : candidate.IsCanonical) (hi : i ∈ t.instances o candidate parent)
    (hfirst : ∀ stmts, t.body = .block stmts → 1 < stmts.length →
      ∀ text, i.span.slice? tree.print = some text → ∀ c ∈ text.toList.head?, c ≠ ' ' ∧ c ≠ '\t') :
    ∃ text, i.span.slice? tree.print = some text ∧
      RestoresText text
        (t.render o' tree.print rule i.bindings i.span candidate.precedence) := by
  cases hbody : t.body with
  | expr e => exact exists_slice?_of_expr hbody hstands hcanonical hi
  | block stmts => exact exists_slice?_of_block hbody hstands hcanonical hi (hfirst stmts hbody)

/-! ## Two calls in a row -/

/-- The statements `a.run(); b.run();` for two tasks. -/
def runBoth : Template where
  name := "runBoth"
  typeParams := []
  params := [⟨"a", .plain "java.lang.Runnable", none⟩, ⟨"b", .plain "java.lang.Runnable", none⟩]
  returnType := .plain "void"
  body := .block
    [.expr (.call (.placeholder "a") ⟨"java.lang.Runnable", "run", false⟩ []),
      .expr (.call (.placeholder "b") ⟨"java.lang.Runnable", "run", false⟩ [])]

/-- A statement that runs a task. -/
def runStmt (name : String) : Node :=
  Fresh.exprStmt (Fresh.call
    (Fresh.select ((Fresh.ident name).typed (.plain "java.lang.Runnable")) "run")
    ⟨"java.lang.Runnable", "run", false, .plain "void", [], none⟩ [])

/-- A block that runs a task by one name, and then another by the name `y`. -/
def runs (name : String) : Node := Fresh.block [runStmt name, runStmt "y"]

theorem isCanonical_runs (name : String) : (runs name).laidOut.IsCanonical := by
  have hstmt (name : String) (offset : Nat) :
      (Node.place 1 offset (runStmt name)).IsCanonical := by
    refine Node.isCanonical_iff.2 ⟨rfl, List.forall_mem_singleton.2 ?_⟩
    refine Node.isCanonical_iff.2 ⟨⟨⟨_, _, _, _, rfl, ?_⟩, nofun⟩, List.forall_mem_singleton.2 ?_⟩
    · intro method hmethod
      obtain rfl := Option.some.inj hmethod
      rfl
    · exact Node.isCanonical_iff.2 ⟨⟨nofun, rfl⟩,
        List.forall_mem_singleton.2 (Node.isCanonical_iff.2 ⟨trivial, nofun⟩)⟩
  exact Node.isCanonical_iff.2 ⟨trivial, List.forall_mem_cons.2
    ⟨hstmt name _, List.forall_mem_singleton.2 (hstmt "y" _)⟩⟩

/-- What is read where both were matched, and what is rendered there. -/
def readRuns (name : String) : List (Option String × Option String) :=
  (runBoth.instances Hierarchy.javaLang.oracle (runs name).laidOut none).map fun i =>
    (i.span.slice? (runs name).print,
      (runBoth.render Hierarchy.javaLang.oracle (runs name).print "com.example.Both" i.bindings
        i.span (runs name).laidOut.precedence).toOption.map (·.text))

theorem exists_mem_instances_runs (name : String) (texts : Option String × Option String)
    (h : readRuns name = [texts]) :
    ∃ i ∈ runBoth.instances Hierarchy.javaLang.oracle (runs name).laidOut none,
      i.span.slice? (runs name).print = texts.1 ∧
        (runBoth.render Hierarchy.javaLang.oracle (runs name).print "com.example.Both" i.bindings
          i.span (runs name).laidOut.precedence).toOption.map (·.text) = texts.2 := by
  obtain ⟨i, hi, htexts⟩ := List.mem_map.1 (h ▸ List.mem_singleton_self texts)
  exact ⟨i, hi, congrArg Prod.fst htexts, congrArg Prod.snd htexts⟩

/-- Both are given back, so that `x.run();` and `y.run();` stay as they are. -/
theorem restoresText_runs :
    ∃ i ∈ runBoth.instances Hierarchy.javaLang.oracle (runs "x").laidOut none,
      RestoresText "x.run();\n    y.run();"
        (runBoth.render Hierarchy.javaLang.oracle (runs "x").print "com.example.Both" i.bindings
          i.span (runs "x").laidOut.precedence) := by
  obtain ⟨i, hi, hslice, -⟩ := exists_mem_instances_runs "x"
    (some "x.run();\n    y.run();", some "x.run();\n    y.run();") (by decide +kernel)
  have hfirst : ∀ text, i.span.slice? (runs "x").print = some text →
      ∀ c ∈ text.toList.head?, c ≠ ' ' ∧ c ≠ '\t' := by
    intro text htext c hc
    obtain rfl := Option.some.inj (hslice.symm.trans htext)
    obtain rfl : 'x' = c := Option.some.inj hc
    decide
  obtain ⟨text, htext, hrestores⟩ := render_of_mem_instances .root (isCanonical_runs "x") hi
    fun _ _ _ => hfirst
  obtain rfl := Option.some.inj (hslice.symm.trans htext)
  exact ⟨i, hi, hrestores⟩

/-- The line of a name that begins with a blank counts as indented by one blank
more, and so is the second line then. -/
theorem exists_not_restoresText :
    ¬ ∀ (tree candidate : Node) (depth : Nat) (o o' : TypeOracle) (t : Template) (i : Instance)
      (parent : Option Node) (rule : String),
      tree.laidOut.Stands depth candidate → candidate.IsCanonical →
      i ∈ t.instances o candidate parent →
      ∃ text, i.span.slice? tree.print = some text ∧
        RestoresText text
          (t.render o' tree.print rule i.bindings i.span candidate.precedence) := by
  intro h
  obtain ⟨i, hi, hslice, hrendered⟩ := exists_mem_instances_runs " x"
    (some " x.run();\n    y.run();", some " x.run();\n     y.run();") (by decide +kernel)
  obtain ⟨text, htext, hrestores⟩ := h (runs " x") (runs " x").laidOut 0 _ Hierarchy.javaLang.oracle
    _ i none "com.example.Both" .root (isCanonical_runs " x") hi
  obtain rfl := Option.some.inj (hslice.symm.trans htext)
  rcases hrestores with ⟨rule, name, hfails⟩ | ⟨r, hr, hsame⟩
  · rw [hfails] at hrendered
    exact absurd hrendered nofun
  · rw [hr] at hrendered
    exact absurd (hsame.symm.trans (Option.some.inj hrendered)) (by decide)

end Template

end Codemod
