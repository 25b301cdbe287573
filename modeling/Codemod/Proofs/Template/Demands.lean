import Codemod.Proofs.Template.Agreement
/-!
# Where demands come from

Every demand that agreement makes comes from a part of the template: a use from
a placeholder, a renaming from a local, and a comparison of types from a cast
(`Agrees.comesFrom`). Conversely each placeholder of the template makes a use,
in the order in which the template mentions them (`Agrees.usedNames`), provided
that a static call has its class as receiver, since that receiver may be left
out in the code.
-/

namespace Codemod.Template

/-! ## Parts of an expression -/

namespace Expr

mutual

/-- The expression and all that it is made of, the outermost first. -/
def parts : Expr → List Expr
  | .placeholder name => [.placeholder name]
  | .localRef name => [.localRef name]
  | .literal value => [.literal value]
  | .classRef name => [.classRef name]
  | .field receiver name => .field receiver name :: parts receiver
  | .call receiver method args =>
    .call receiver method args :: (parts receiver ++ allParts args)
  | .methodRef receiver method => .methodRef receiver method :: parts receiver
  | .unary op operand => .unary op operand :: parts operand
  | .binary op lhs rhs => .binary op lhs rhs :: (parts lhs ++ parts rhs)
  | .cast target expr => .cast target expr :: parts expr

/-- The expressions and all that they are made of. -/
def allParts : List Expr → List Expr
  | [] => []
  | e :: rest => parts e ++ allParts rest

end

theorem mem_parts_self (e : Expr) : e ∈ e.parts := by
  cases e <;> simp [parts]

theorem parts_left_subset (e : Expr) (left right : List Expr) : left ⊆ e :: (left ++ right) :=
  List.Subset.trans (List.subset_append_left left right) (List.subset_cons_self e _)

theorem parts_right_subset (e : Expr) (left right : List Expr) : right ⊆ e :: (left ++ right) :=
  List.Subset.trans (List.subset_append_right left right) (List.subset_cons_self e _)

/-- Every static call has its class as receiver. -/
def HasClassReceivers (parts : List Expr) : Prop :=
  ∀ receiver method args, .call receiver method args ∈ parts → method.isStatic = true →
    ∃ name, receiver = .classRef name

theorem HasClassReceivers.mono {parts more : List Expr} (h : HasClassReceivers more)
    (hsub : parts ⊆ more) : HasClassReceivers parts :=
  fun receiver method args hmem => h receiver method args (hsub hmem)

end Expr

/-! ## The part that makes a demand -/

namespace Demand

/-- The demand is what one of the parts asks for. -/
def ComesFrom (parts : List Expr) : Demand → Prop
  | .use name _ _ => .placeholder name ∈ parts
  | .rename name _ => .localRef name ∈ parts
  | .agree declared _ => ∃ expr, .cast declared expr ∈ parts
  | .fit _ _ => False

theorem ComesFrom.mono {parts more : List Expr} {d : Demand} (h : d.ComesFrom parts)
    (hsub : parts ⊆ more) : d.ComesFrom more := by
  cases d with
  | use => exact hsub h
  | rename => exact hsub h
  | agree =>
    obtain ⟨expr, hcast⟩ := h
    exact ⟨expr, hsub hcast⟩
  | fit => exact h

/-- The use that a demand is. -/
def use? : Demand → Option (String × Node)
  | .use name node _ => some (name, node)
  | _ => none

/-- The uses of placeholders among demands, each with the expression it is for,
from left to right. -/
def uses (ds : List Demand) : List (String × Node) := ds.filterMap use?

theorem uses_append (ds es : List Demand) : uses (ds ++ es) = uses ds ++ uses es :=
  List.filterMap_append

end Demand

variable {o : TypeOracle}

open Demand Codemod.Template.Expr

mutual

/-- **Every demand of agreement comes from a part of the template.** -/
theorem Agrees.comesFrom {e : Expr} {code : Node} {parent : Option Node} {ds : List Demand}
    (h : Agrees o e code parent ds) {d : Demand} (hd : d ∈ ds) : d.ComesFrom e.parts := by
  match e with
  | .placeholder name =>
    cases h
    obtain rfl := List.mem_singleton.1 hd
    exact mem_parts_self _
  | .localRef name =>
    cases h
    obtain rfl := List.mem_singleton.1 hd
    exact mem_parts_self _
  | .literal _ => cases h; exact absurd hd List.not_mem_nil
  | .classRef _ => cases h; exact absurd hd List.not_mem_nil
  | .field receiver _ =>
    cases h with
    | field _ hreceiver => exact (hreceiver.comesFrom hd).mono (List.subset_cons_self _ _)
    | importedField => exact absurd hd List.not_mem_nil
  | .call receiver _ args =>
    cases h with
    | call _ _ _ hreceiver hargs =>
      rcases List.mem_append.1 hd with hds | hes
      · exact (hreceiver.comesFrom hds).mono (parts_left_subset _ _ _)
      · exact (hargs.comesFrom hes).mono (parts_right_subset _ _ _)
    | importedCall _ _ _ _ hargs => exact (hargs.comesFrom hd).mono (parts_right_subset _ _ _)
  | .methodRef receiver _ =>
    cases h with
    | methodRef _ _ _ hreceiver =>
      exact (hreceiver.comesFrom hd).mono (List.subset_cons_self _ _)
  | .unary _ operand =>
    cases h with
    | unary _ hoperand => exact (hoperand.comesFrom hd).mono (List.subset_cons_self _ _)
  | .binary _ lhs rhs =>
    cases h with
    | binary _ hlhs hrhs =>
      rcases List.mem_append.1 hd with hds | hes
      · exact (hlhs.comesFrom hds).mono (parts_left_subset _ _ _)
      · exact (hrhs.comesFrom hes).mono (parts_right_subset _ _ _)
  | .cast target expr =>
    cases h with
    | cast _ hexpr =>
      rcases List.mem_cons.1 hd with rfl | hds
      · exact ⟨expr, mem_parts_self _⟩
      · exact (hexpr.comesFrom hds).mono (List.subset_cons_self _ _)

theorem AgreesAll.comesFrom {es : List Expr} {codes : List Node} {parent : Option Node}
    {ds : List Demand} (h : AgreesAll o es codes parent ds) {d : Demand} (hd : d ∈ ds) :
    d.ComesFrom (allParts es) := by
  match es with
  | [] => cases h; exact absurd hd List.not_mem_nil
  | e :: es =>
    cases h with
    | cons he hrest =>
      rcases List.mem_append.1 hd with hds | hes
      · exact (he.comesFrom hds).mono (List.subset_append_left _ _)
      · exact (hrest.comesFrom hes).mono (List.subset_append_right _ _)

end

mutual

/-- **Each placeholder makes a use**, in the order in which the template
mentions them. -/
theorem Agrees.usedNames {e : Expr} {code : Node} {parent : Option Node} {ds : List Demand}
    (h : Agrees o e code parent ds) (hclass : HasClassReceivers e.parts) :
    (uses ds).map (·.1) = e.placeholderUses := by
  match e with
  | .placeholder _ => cases h; rfl
  | .localRef _ => cases h; rfl
  | .literal _ => cases h; rfl
  | .classRef _ => cases h; rfl
  | .field receiver _ =>
    cases h with
    | field _ hreceiver =>
      exact hreceiver.usedNames (hclass.mono (List.subset_cons_self _ _))
    | importedField => rfl
  | .call receiver method args =>
    have hargsClass : HasClassReceivers (allParts args) :=
      hclass.mono (parts_right_subset _ _ _)
    cases h with
    | call _ _ _ hreceiver hargs =>
      rw [uses_append, List.map_append, placeholderUses, hargs.usedNames hargsClass,
        hreceiver.usedNames (hclass.mono (parts_left_subset _ _ _))]
    | importedCall _ hstatic _ _ hargs =>
      -- The receiver that the code leaves out is a class and uses no placeholder.
      obtain ⟨name, rfl⟩ := hclass _ _ _ (mem_parts_self _) hstatic
      rw [placeholderUses, placeholderUses, List.nil_append, hargs.usedNames hargsClass]
  | .methodRef receiver _ =>
    cases h with
    | methodRef _ _ _ hreceiver =>
      exact hreceiver.usedNames (hclass.mono (List.subset_cons_self _ _))
  | .unary _ operand =>
    cases h with
    | unary _ hoperand => exact hoperand.usedNames (hclass.mono (List.subset_cons_self _ _))
  | .binary _ lhs rhs =>
    cases h with
    | binary _ hlhs hrhs =>
      rw [uses_append, List.map_append, placeholderUses,
        hlhs.usedNames (hclass.mono (parts_left_subset _ _ _)),
        hrhs.usedNames (hclass.mono (parts_right_subset _ _ _))]
  | .cast _ expr =>
    cases h with
    | cast _ hexpr => exact hexpr.usedNames (hclass.mono (List.subset_cons_self _ _))

theorem AgreesAll.usedNames {es : List Expr} {codes : List Node} {parent : Option Node}
    {ds : List Demand} (h : AgreesAll o es codes parent ds)
    (hclass : HasClassReceivers (allParts es)) :
    (uses ds).map (·.1) = allPlaceholderUses es := by
  match es with
  | [] => cases h; rfl
  | e :: es =>
    cases h with
    | cons he hrest =>
      rw [uses_append, List.map_append, allPlaceholderUses,
        he.usedNames (hclass.mono (List.subset_append_left _ _)),
        hrest.usedNames (hclass.mono (List.subset_append_right _ _))]

end

theorem AgreesStmt.usedNames {s : Stmt} {code : Node} {ds : List Demand}
    (h : AgreesStmt o s code ds) (hclass : ∀ e ∈ s.expr?, HasClassReceivers e.parts) :
    (uses ds).map (·.1) = s.expr?.toList.flatMap placeholderUses := by
  cases h with
  | expr hds => simpa [Stmt.expr?] using hds.usedNames (hclass _ rfl)
  | retNone => rfl
  | ret hds => simpa [Stmt.expr?] using hds.usedNames (hclass _ rfl)
  | localVar => rfl
  | localInit hds =>
    have huses := hds.usedNames (hclass _ rfl)
    simpa [Stmt.expr?, uses, use?, List.filterMap_cons] using huses

theorem AgreesStmts.usedNames {stmts : List Stmt} {codes : List Node} {ds : List Demand}
    (h : AgreesStmts o stmts codes ds)
    (hclass : ∀ e ∈ stmts.filterMap Stmt.expr?, HasClassReceivers e.parts) :
    (uses ds).map (·.1) = (stmts.filterMap Stmt.expr?).flatMap placeholderUses := by
  induction h with
  | nil => rfl
  | @cons s stmts code codes ds rest hs hrest ih =>
    have hfirst := hs.usedNames fun e he =>
      hclass e (List.mem_filterMap.2 ⟨s, List.mem_cons_self, he⟩)
    have hlater := ih fun e he => by
      obtain ⟨s', hs', he⟩ := List.mem_filterMap.1 he
      exact hclass e (List.mem_filterMap.2 ⟨s', List.mem_cons_of_mem _ hs', he⟩)
    rw [uses_append, List.map_append, hfirst, hlater, List.filterMap_cons]
    cases s.expr? <;> simp

/-- The type of the whole expression is no use of a placeholder. -/
theorem uses_resultDemands (t : Template) (code : Node) : uses (t.resultDemands code) = [] := by
  unfold resultDemands
  split
  · split <;> rfl
  · rfl

end Codemod.Template
