import Codemod.Proofs.Template.Meeting
import Codemod.Proofs.Tree.Standing
/-!
# Bound nodes stand where the code does

All that matching looks at stands in the tree that the code stands in, and since
expressions do not open lines of their own, at the nesting depth of the code
(`Template.Agrees.exists_stands`). So does what placeholders are bound to
(`Template.stands_of_mem_instances`).
-/

namespace Codemod.Template

open Demand

variable {o : TypeOracle} {root : Node} {depth : Nat}

/-- The code that a demand is about: the expression that a placeholder is used
for, without parentheses, and the cast or the local whose type has to agree. -/
def Demand.IsAbout : Demand → Node → Prop
  | .use _ node _, n => n = node ∧ n.isParen = false
  | .agree _ actual, n =>
    (∃ info expr, n = .cast info actual expr) ∨
      ∃ info name init, n = .localVar info name actual init
  | .rename _ _, _ | .fit _ _, _ => True

mutual

/-- **What the demands of an expression are about stands in the tree.** -/
theorem Agrees.exists_stands {e : Expr} {code : Node} {parent : Option Node} {ds : List Demand}
    (h : Agrees o e code parent ds) (hcode : root.Stands depth code) {d : Demand} (hd : d ∈ ds) :
    ∃ n, root.Stands depth n ∧ d.IsAbout n := by
  have hskipped := hcode.skipParens
  match e with
  | .placeholder _ =>
    cases h
    obtain rfl := List.mem_singleton.1 hd
    exact ⟨_, hskipped, rfl, code.isParen_skipParens⟩
  | .localRef _ =>
    cases h
    obtain rfl := List.mem_singleton.1 hd
    exact ⟨code, hcode, trivial⟩
  | .literal _ => cases h; exact absurd hd List.not_mem_nil
  | .classRef _ => cases h; exact absurd hd List.not_mem_nil
  | .field _ _ =>
    cases h with
    | field hcode' hds =>
      rw [hcode'] at hskipped
      exact hds.exists_stands (hskipped.child List.mem_cons_self) hd
    | importedField => exact absurd hd List.not_mem_nil
  | .call _ _ _ =>
    cases h with
    | call hcode' _ _ hds hes =>
      rw [hcode'] at hskipped
      rcases List.mem_append.1 hd with hd | hd
      · have hcallee := hskipped.child List.mem_cons_self
        exact hds.exists_stands (hcallee.child List.mem_cons_self) hd
      · exact hes.exists_stands (fun c hc => hskipped.child (List.mem_cons_of_mem _ hc)) hd
    | importedCall hcode' _ _ _ hes =>
      rw [hcode'] at hskipped
      exact hes.exists_stands (fun c hc => hskipped.child (List.mem_cons_of_mem _ hc)) hd
  | .methodRef _ _ =>
    cases h with
    | methodRef hcode' _ _ hds =>
      rw [hcode'] at hskipped
      exact hds.exists_stands (hskipped.child List.mem_cons_self) hd
  | .unary _ _ =>
    cases h with
    | unary hcode' hds =>
      rw [hcode'] at hskipped
      exact hds.exists_stands (hskipped.child List.mem_cons_self) hd
  | .binary _ _ _ =>
    cases h with
    | binary hcode' hds hes =>
      rw [hcode'] at hskipped
      rcases List.mem_append.1 hd with hd | hd
      · exact hds.exists_stands (hskipped.child List.mem_cons_self) hd
      · exact hes.exists_stands (hskipped.child (List.mem_cons_of_mem _ List.mem_cons_self)) hd
  | .cast _ _ =>
    cases h with
    | cast hcode' hds =>
      rw [hcode'] at hskipped
      rcases List.mem_cons.1 hd with rfl | hd
      · exact ⟨_, hskipped, .inl ⟨_, _, rfl⟩⟩
      · exact hds.exists_stands (hskipped.child List.mem_cons_self) hd

theorem AgreesAll.exists_stands {es : List Expr} {codes : List Node} {parent : Option Node}
    {ds : List Demand} (h : AgreesAll o es codes parent ds)
    (hcodes : ∀ c ∈ codes, root.Stands depth c) {d : Demand} (hd : d ∈ ds) :
    ∃ n, root.Stands depth n ∧ d.IsAbout n := by
  match es with
  | [] => cases h; exact absurd hd List.not_mem_nil
  | _ :: _ =>
    cases h with
    | cons hds hrest =>
      rcases List.mem_append.1 hd with hd | hd
      · exact hds.exists_stands (hcodes _ List.mem_cons_self) hd
      · exact hrest.exists_stands (fun c hc => hcodes c (List.mem_cons_of_mem _ hc)) hd

end

/-- What the demands of a statement are about stands in the tree. -/
theorem AgreesStmt.exists_stands {s : Stmt} {code : Node} {ds : List Demand}
    (h : AgreesStmt o s code ds) (hcode : root.Stands depth code) {d : Demand} (hd : d ∈ ds) :
    ∃ n, root.Stands depth n ∧ d.IsAbout n := by
  cases h with
  | expr hds => exact hds.exists_stands (hcode.child List.mem_cons_self) hd
  | retNone => exact absurd hd List.not_mem_nil
  | ret hds => exact hds.exists_stands (hcode.child List.mem_cons_self) hd
  | localVar =>
    rcases List.mem_cons.1 hd with rfl | hd
    · exact ⟨_, hcode, trivial⟩
    · obtain rfl := List.mem_singleton.1 hd
      exact ⟨_, hcode, .inr ⟨_, _, _, rfl⟩⟩
  | localInit hds =>
    rcases List.mem_cons.1 hd with rfl | hd
    · exact ⟨_, hcode, trivial⟩
    rcases List.mem_cons.1 hd with rfl | hd
    · exact ⟨_, hcode, .inr ⟨_, _, _, rfl⟩⟩
    · exact hds.exists_stands (hcode.child List.mem_cons_self) hd

theorem AgreesStmts.exists_stands {stmts : List Stmt} {codes : List Node} {ds : List Demand}
    (h : AgreesStmts o stmts codes ds) (hcodes : ∀ c ∈ codes, root.Stands depth c) {d : Demand}
    (hd : d ∈ ds) : ∃ n, root.Stands depth n ∧ d.IsAbout n := by
  induction h with
  | nil => exact absurd hd List.not_mem_nil
  | cons hs _ ih =>
    rcases List.mem_append.1 hd with hd | hd
    · exact hs.exists_stands (hcodes _ List.mem_cons_self) hd
    · exact ih (fun c hc => hcodes c (List.mem_cons_of_mem _ hc)) hd

/-- Where all that demands are about stands, the expressions of their uses
do. -/
theorem stands_of_mem_uses {ds : List Demand}
    (h : ∀ d ∈ ds, ∃ n, root.Stands depth n ∧ d.IsAbout n) {u : String × Node} (hu : u ∈ uses ds) :
    root.Stands depth u.2 := by
  obtain ⟨d, hd, huse⟩ := List.mem_filterMap.1 hu
  cases d with
  | use name node parent =>
    obtain rfl := Option.some.inj huse
    obtain ⟨n, hstands, rfl, -⟩ := h _ hd
    exact hstands
  | _ => exact absurd huse nofun

/-- The demand for the type of the whole expression is about nothing in it. -/
theorem isAbout_of_mem_resultDemands {t : Template} {code n : Node} {d : Demand}
    (hd : d ∈ t.resultDemands code) : d.IsAbout n := by
  unfold resultDemands at hd
  split at hd
  · split at hd
    · exact absurd hd List.not_mem_nil
    · obtain rfl := List.mem_singleton.1 hd
      trivial
  · exact absurd hd List.not_mem_nil

theorem exists_body_of_isExpression {t : Template} (h : t.isExpression = true) :
    ∃ e, t.body = .expr e := by
  unfold isExpression at h
  split at h
  · rename_i e hbody
    exact ⟨e, hbody⟩
  · exact absurd h nofun

/-- **What an instance binds stands in the tree**, at the depth of the code. -/
theorem stands_of_mem_instances {t : Template} {e : Expr} (hbody : t.body = .expr e) {code : Node}
    {parent : Option Node} {i : Instance} (hi : i ∈ t.instances o code parent)
    (hcode : root.Stands depth code) {name : String} {bound : Bound}
    (hbound : i.bindings.get? name = some bound) : root.Stands depth bound.node := by
  obtain ⟨-, -, ds, b, hagrees, hmeet, rfl⟩ := (mem_instances_expr_iff hbody).1 hi
  rcases get?_of_meetAll? hmeet hbound with hempty | huse
  · exact absurd hempty (by simp)
  · rw [uses_append, uses_resultDemands, List.append_nil] at huse
    exact stands_of_mem_uses (fun _ hd => hagrees.exists_stands hcode hd) huse

end Codemod.Template
