import Codemod.Proofs.Template.Demands
import Codemod.Proofs.Template.Standing
import Codemod.Tree.Fresh
import Codemod.Types.Hierarchy
/-!
# Placeholders and locals

A placeholder is bound with no regard to the locals of the template, so what it
stands for may mention a local of the code that a local of the template stands for
(`Template.exists_captured`). It can only do so behind the declaration: where the
code declares its locals before it mentions them (`Node.DeclaresFirst`), a
placeholder that is used in a statement up to the declaration never captures the
local (`Template.usedBehind_of_captures`). For a placeholder stands for an
expression in the statement of the code that agrees with the statement of its
first use (`Template.AgreesStmts.exists_stands_of_mem_uses`).
-/

namespace Codemod

/-! ## Locals in code -/

namespace Node

variable {name : String} {n root : Node} {depth : Nat}

/-- An identifier in the tree refers to the local. -/
def MentionsLocal (name : String) (n : Node) : Prop :=
  ∃ m ∈ n.preorder, ∃ info spelled, m = .ident info spelled ∧ info.symbol = some (.ofLocal name)

/-- What is mentioned in a part is mentioned in the whole. -/
theorem MentionsLocal.of_stands (hn : n.MentionsLocal name) (h : root.Stands depth n) :
    root.MentionsLocal name := by
  obtain ⟨m, hm, hident⟩ := hn
  exact ⟨m, h.preorder_subset hm, hident⟩

/-- Expression statements, returns and declarations of locals: the statements that
hold no others, which are all that a template is made of. -/
def isSimpleStatement : Node → Bool
  | .exprStmt .. | .ret .. | .localVar .. => true
  | _ => false

/-- Locals are declared before they are mentioned: no simple statement mentions a
local that it or a later one of the statements declares. -/
def DeclaresFirst (codes : List Node) : Prop :=
  ∀ before info name ty init after, codes = before ++ .localVar info name ty init :: after →
    ∀ s ∈ before ++ [.localVar info name ty init], s.isSimpleStatement = true →
      ¬ s.MentionsLocal name

end Node

namespace Template

open Demand Codemod.Template.Expr

variable {o : TypeOracle} {t : Template}

/-- A run of nodes has some before it and some behind it. -/
theorem exists_append_of_mem_windows {k : Nat} {codes window : List Node}
    (h : window ∈ windows k codes) : ∃ before after, codes = before ++ window ++ after := by
  induction codes with
  | nil => exact absurd h List.not_mem_nil
  | cons code codes ih =>
    rw [windows] at h
    split at h
    · exact absurd h List.not_mem_nil
    · rcases List.mem_cons.1 h with rfl | h
      · exact ⟨[], (code :: codes).drop k, (List.take_append_drop k _).symm⟩
      · obtain ⟨before, after, rfl⟩ := ih h
        exact ⟨code :: before, after, rfl⟩

/-! ## Uses of placeholders -/

mutual

/-- A placeholder that is a part of an expression is used in it. -/
theorem Expr.mem_placeholderUses {e : Expr} {name : String} (h : .placeholder name ∈ e.parts) :
    name ∈ e.placeholderUses := by
  match e with
  | .placeholder _ =>
    exact List.mem_singleton.2 (Expr.placeholder.inj (List.mem_singleton.1 h))
  | .localRef _ => exact absurd (List.mem_singleton.1 h) nofun
  | .literal _ => exact absurd (List.mem_singleton.1 h) nofun
  | .classRef _ => exact absurd (List.mem_singleton.1 h) nofun
  | .field receiver _ =>
    exact Expr.mem_placeholderUses (e := receiver) ((List.mem_cons.1 h).resolve_left nofun)
  | .methodRef receiver _ =>
    exact Expr.mem_placeholderUses (e := receiver) ((List.mem_cons.1 h).resolve_left nofun)
  | .call receiver _ args =>
    rcases List.mem_append.1 ((List.mem_cons.1 h).resolve_left nofun) with hreceiver | hargs
    · exact List.mem_append_left _ (Expr.mem_placeholderUses hreceiver)
    · exact List.mem_append_right _ (Expr.mem_allPlaceholderUses hargs)
  | .unary _ operand =>
    exact Expr.mem_placeholderUses (e := operand) ((List.mem_cons.1 h).resolve_left nofun)
  | .binary _ lhs rhs =>
    rcases List.mem_append.1 ((List.mem_cons.1 h).resolve_left nofun) with hlhs | hrhs
    · exact List.mem_append_left _ (Expr.mem_placeholderUses hlhs)
    · exact List.mem_append_right _ (Expr.mem_placeholderUses hrhs)
  | .cast _ expr =>
    exact Expr.mem_placeholderUses (e := expr) ((List.mem_cons.1 h).resolve_left nofun)

theorem Expr.mem_allPlaceholderUses {es : List Expr} {name : String}
    (h : .placeholder name ∈ allParts es) : name ∈ allPlaceholderUses es := by
  match es with
  | [] => exact absurd h List.not_mem_nil
  | e :: rest =>
    rcases List.mem_append.1 h with he | hrest
    · exact List.mem_append_left _ (Expr.mem_placeholderUses he)
    · exact List.mem_append_right _ (Expr.mem_allPlaceholderUses hrest)

end

variable {name : String} {node : Node} {ds : List Demand}

/-- A use comes from a placeholder that the expression uses. -/
theorem Agrees.mem_placeholderUses {e : Expr} {code : Node} {parent : Option Node}
    (h : Agrees o e code parent ds) (hu : (name, node) ∈ uses ds) : name ∈ e.placeholderUses := by
  obtain ⟨d, hd, huse⟩ := List.mem_filterMap.1 hu
  cases d with
  | use name' node' parent' =>
    obtain ⟨rfl, rfl⟩ := Prod.mk.inj (Option.some.inj huse)
    exact Expr.mem_placeholderUses (h.comesFrom hd)
  | _ => exact absurd huse nofun

theorem AgreesStmt.mem_placeholderUses {s : Stmt} {code : Node} (h : AgreesStmt o s code ds)
    (hu : (name, node) ∈ uses ds) : name ∈ s.expr?.toList.flatMap placeholderUses := by
  cases h with
  | expr hds => exact List.mem_flatMap.2 ⟨_, List.mem_singleton_self _, hds.mem_placeholderUses hu⟩
  | retNone => exact absurd hu List.not_mem_nil
  | ret hds => exact List.mem_flatMap.2 ⟨_, List.mem_singleton_self _, hds.mem_placeholderUses hu⟩
  | localVar => exact absurd hu List.not_mem_nil
  | localInit hds =>
    exact List.mem_flatMap.2 ⟨_, List.mem_singleton_self _, hds.mem_placeholderUses hu⟩

/-- The placeholders that statements use, in order. -/
def Stmt.allPlaceholderUses (stmts : List Stmt) : List String :=
  (stmts.filterMap Stmt.expr?).flatMap placeholderUses

theorem Stmt.allPlaceholderUses_cons (s : Stmt) (stmts : List Stmt) :
    allPlaceholderUses (s :: stmts) =
      s.expr?.toList.flatMap placeholderUses ++ allPlaceholderUses stmts := by
  rw [allPlaceholderUses, List.filterMap_cons, allPlaceholderUses]
  cases s.expr? <;> simp

theorem AgreesStmts.mem_allPlaceholderUses {stmts : List Stmt} {codes : List Node}
    (h : AgreesStmts o stmts codes ds) (hu : (name, node) ∈ uses ds) :
    name ∈ Stmt.allPlaceholderUses stmts := by
  induction h with
  | nil => exact absurd hu List.not_mem_nil
  | cons hs _ ih =>
    rw [uses_append] at hu
    rw [Stmt.allPlaceholderUses_cons]
    rcases List.mem_append.1 hu with hu | hu
    · exact List.mem_append_left _ (hs.mem_placeholderUses hu)
    · exact List.mem_append_right _ (ih hu)

/-! ## Where what is used stands -/

/-- What agrees with a statement is a simple statement. -/
theorem AgreesStmt.isSimpleStatement {s : Stmt} {code : Node} (h : AgreesStmt o s code ds) :
    code.isSimpleStatement = true := by
  cases h <;> rfl

/-- What a placeholder in a statement is used for stands in the code of it. -/
theorem AgreesStmt.exists_stands_of_mem_uses {s : Stmt} {code : Node} (h : AgreesStmt o s code ds)
    (hu : (name, node) ∈ uses ds) : ∃ depth, code.Stands depth node :=
  ⟨0, stands_of_mem_uses (fun _ hd => h.exists_stands .root hd) hu⟩

/-- **What a placeholder is used for stands in a statement** that agrees with one of
the template. -/
theorem AgreesStmts.exists_stands_of_mem_uses {stmts : List Stmt} {codes : List Node}
    (h : AgreesStmts o stmts codes ds) (hu : (name, node) ∈ uses ds) :
    ∃ s ∈ codes, s.isSimpleStatement = true ∧ ∃ depth, s.Stands depth node := by
  induction h with
  | nil => exact absurd hu List.not_mem_nil
  | cons hs _ ih =>
    rw [uses_append] at hu
    rcases List.mem_append.1 hu with hu | hu
    · exact ⟨_, List.mem_cons_self, hs.isSimpleStatement, hs.exists_stands_of_mem_uses hu⟩
    · obtain ⟨s, hmem, hs⟩ := ih hu
      exact ⟨s, List.mem_cons_of_mem _ hmem, hs⟩

/-! ## Around a declaration -/

/-- A declared local is renamed to the local that is declared in its place. -/
theorem AgreesStmt.exists_localVar {declared : String} {ty : Ty} {init : Option Expr} {code : Node}
    (h : AgreesStmt o (.localVar declared ty init) code ds) :
    ∃ info name' ty' init', code = .localVar info name' ty' init' ∧
      Demand.rename declared name' ∈ ds := by
  cases h with
  | localVar => exact ⟨_, _, _, _, rfl, List.mem_cons_self⟩
  | localInit => exact ⟨_, _, _, _, rfl, List.mem_cons_self⟩

/-- The statements up to a declaration agree with code up to one, and the others
with the rest. -/
theorem AgreesStmts.exists_declaration {before after : List Stmt} {declared : String} {ty : Ty}
    {init : Option Expr} {codes : List Node}
    (h : AgreesStmts o (before ++ .localVar declared ty init :: after) codes ds) :
    ∃ earlier info name' ty' init' later ds₁ ds₂,
      codes = earlier ++ .localVar info name' ty' init' :: later ∧ ds = ds₁ ++ ds₂ ∧
      Demand.rename declared name' ∈ ds₁ ∧
      AgreesStmts o (before ++ [.localVar declared ty init])
        (earlier ++ [.localVar info name' ty' init']) ds₁ ∧
      AgreesStmts o after later ds₂ := by
  induction before generalizing codes ds with
  | nil =>
    cases h with
    | cons hs hafter =>
      obtain ⟨info, name', ty', init', rfl, hrename⟩ := hs.exists_localVar
      exact ⟨[], info, name', ty', init', _, _ ++ [], _, rfl, by rw [List.append_nil],
        List.mem_append_left _ hrename, .cons hs .nil, hafter⟩
  | cons s before ih =>
    cases h with
    | cons hs hrest =>
      obtain ⟨earlier, info, name', ty', init', later, ds₁, ds₂, rfl, rfl, hrename, hupTo,
        hafter⟩ := ih hrest
      exact ⟨_ :: earlier, info, name', ty', init', later, _ ++ ds₁, ds₂, rfl,
        (List.append_assoc ..).symm, List.mem_append_right _ hrename, .cons hs hupTo, hafter⟩

/-- A placeholder that is not used for what it is bound to is not used at all, where
the first uses are. -/
theorem lookup_eq_none_of_not_mem {us vs : List (String × Node)}
    (h : (us ++ vs).lookup name = some node) (hnot : (name, node) ∉ us) :
    us.lookup name = none := by
  rw [List.lookup_append] at h
  cases hfound : us.lookup name with
  | none => rfl
  | some found =>
    rw [hfound] at h
    obtain rfl := Option.some.inj h
    obtain ⟨us₁, us₂, rfl, -⟩ := List.lookup_eq_some_iff.1 hfound
    exact absurd (List.mem_append_right _ List.mem_cons_self) hnot

/-- **A placeholder captures a local only behind its declaration.** Where the code
declares its locals before it mentions them, a placeholder that stands for code
which mentions a local is used behind the declaration that the local stands for,
and not up to it. -/
theorem usedBehind_of_captures {stmts before after : List Stmt} (hbody : t.body = .block stmts)
    {declared : String} {ty : Ty} {init : Option Expr}
    (hstmts : stmts = before ++ .localVar declared ty init :: after)
    {code : Node} {parent : Option Node} {i : Instance} (hi : i ∈ t.instances o code parent)
    (hfirst : Node.DeclaresFirst code.children) {bound : Bound} {localName : String}
    (hbound : i.bindings.get? name = some bound)
    (hlocal : i.bindings.locals.get? declared = some localName)
    (hcaptures : bound.node.MentionsLocal localName) :
    name ∈ Stmt.allPlaceholderUses after ∧
      ((∀ e ∈ stmts.filterMap Stmt.expr?, HasClassReceivers e.parts) →
        name ∉ Stmt.allPlaceholderUses (before ++ [Stmt.localVar declared ty init])) := by
  obtain ⟨-, info, codes, rfl, window, hwindow, ds, b, hagrees, hmeet, rfl⟩ :=
    (mem_instances_block_iff hbody).1 hi
  obtain ⟨behind, beyond, hcodes⟩ := exists_append_of_mem_windows hwindow
  rw [hstmts] at hagrees
  obtain ⟨earlier, info', name', ty', init', later, ds₁, ds₂, rfl, rfl, hrename, hupTo, hafter⟩ :=
    hagrees.exists_declaration
  -- The local that is mentioned is the one declared in place of the template's.
  obtain rfl : name' = localName := Option.some.inj
    ((get?_locals_of_meetAll? hmeet (List.mem_append_left _ hrename)).symm.trans hlocal)
  have hdeclared : codes = (behind ++ earlier) ++
      .localVar info' name' ty' init' :: (later ++ beyond) := by
    rw [hcodes]
    simp only [List.append_assoc, List.cons_append]
  -- No statement up to the declaration mentions it, so the bound expression is in none.
  have hnot : (name, bound.node) ∉ uses ds₁ := by
    intro hu
    obtain ⟨s, hs, hsimple, depth, hstands⟩ := hupTo.exists_stands_of_mem_uses hu
    refine hfirst _ _ _ _ _ _ hdeclared s ?_ hsimple (hcaptures.of_stands hstands)
    rw [List.append_assoc]
    exact List.mem_append_right _ hs
  have hlookup : (uses ds₁ ++ uses ds₂).lookup name = some bound.node := by
    have huses := (lookup_uses_of_meetAll? hmeet (by simp) hbound).1
    rwa [uses_append] at huses
  have hnone := lookup_eq_none_of_not_mem hlookup hnot
  refine ⟨?_, fun hclass huse => ?_⟩
  · rw [List.lookup_append, hnone, Option.none_or] at hlookup
    obtain ⟨us, vs, hsplit, -⟩ := List.lookup_eq_some_iff.1 hlookup
    have hlater : (name, bound.node) ∈ uses ds₂ := by
      rw [hsplit]
      exact List.mem_append_right _ List.mem_cons_self
    exact hafter.mem_allPlaceholderUses hlater
  · have hclassUpTo : ∀ e ∈ (before ++ [Stmt.localVar declared ty init]).filterMap Stmt.expr?,
        HasClassReceivers e.parts := fun e he => hclass e (by
      rw [hstmts, List.append_cons, List.filterMap_append]
      exact List.mem_append_left _ he)
    rw [Stmt.allPlaceholderUses, ← hupTo.usedNames hclassUpTo] at huse
    obtain ⟨u, hu, rfl⟩ := List.mem_map.1 huse
    exact absurd (List.lookup_eq_none_iff.1 hnone u hu) (by simp)

/-! ## A variable that is shown -/

/-- The class method that shows a number. -/
def showKey : MethodKey := ⟨"com.example.Log", "show", true⟩

/-- The statements `int t = 0; Log.show(a);` for a number. -/
def shownBehind : Template where
  name := "shownBehind"
  typeParams := []
  params := [⟨"a", .plain "int", none⟩]
  returnType := .plain "void"
  body := .block [.localVar "t" (.plain "int") (some (.literal (.int 0))),
    .expr (.call (.classRef "com.example.Log") showKey [.placeholder "a"])]

/-- The variable `x`. -/
def variableX : Node := ((Fresh.ident "x").typed (.plain "int")).resolved (.ofLocal "x")

/-- The declaration `int x = 0;`. -/
def declarationX : Node := Fresh.localVar "x" (.plain "int") (some (Fresh.literal (.int 0)))

/-- The statement `Log.show(x);`. -/
def showingX : Node :=
  Fresh.exprStmt (Fresh.call (Fresh.select (Fresh.classRef "com.example.Log") "show")
    ⟨"com.example.Log", "show", true, .plain "void", [], none⟩ [variableX])

/-- The instance that lets `a` stand for the variable that `t` stands for too. -/
def capturing : Instance where
  span := ⟨0, 0⟩
  bindings :=
    { (Bindings.empty.bindExpr "a" ⟨variableX, .plain "int"⟩) with
      locals := (∅ : Dict String).insert "t" "x" }

theorem capturing_mem_instances : capturing ∈ shownBehind.instances Hierarchy.javaLang.oracle
    (Fresh.block [declarationX, showingX]) none :=
  List.mem_singleton.2 rfl

theorem mentionsLocal_variableX : variableX.MentionsLocal "x" :=
  ⟨variableX, by rw [Node.preorder_eq]; exact List.mem_cons_self, _, _, rfl, rfl⟩

/-- The declaration of `x` comes first and does not mention it. -/
theorem declaresFirst_showingX : Node.DeclaresFirst [declarationX, showingX] := by
  intro before info name ty init after h s hs _ hmentions
  rcases before with _ | ⟨_, _ | ⟨_, before⟩⟩
  · obtain ⟨hdeclaration, -⟩ := List.cons.inj h
    rw [← hdeclaration] at hs
    obtain rfl := List.mem_singleton.1 hs
    obtain ⟨m, hm, info, spelled, rfl, -⟩ := hmentions
    simp [Node.preorder_eq, declarationX, Fresh.localVar, Fresh.literal, Node.children] at hm
  · simp [showingX, Fresh.exprStmt] at h
  · have hrest := (List.cons.inj (List.cons.inj h).2).2
    exact absurd hrest.symm (List.append_ne_nil_of_right_ne_nil before (List.cons_ne_nil _ _))

/-- The one static call of the template has its class as receiver. -/
theorem hasClassReceivers_shownBehind :
    ∀ e ∈ shownBehind.body.exprs, HasClassReceivers e.parts := by
  intro e he receiver method args hcall _
  rcases List.mem_cons.1 he with rfl | he
  · exact absurd (List.mem_singleton.1 hcall) nofun
  · obtain rfl := List.mem_singleton.1 he
    rcases List.mem_cons.1 hcall with hsame | hbelow
    · exact ⟨_, (Expr.call.inj hsame).1⟩
    · simp [parts, allParts] at hbelow

/-- The placeholder of `int t = 0; Log.show(a);` captures the variable, and it is
used behind the declaration alone. -/
theorem usedBehind_shownBehind :
    capturing ∈ shownBehind.instances Hierarchy.javaLang.oracle
        (Fresh.block [declarationX, showingX]) none ∧
      Node.DeclaresFirst [declarationX, showingX] ∧ variableX.MentionsLocal "x" ∧
      "a" ∈ Stmt.allPlaceholderUses
        [.expr (.call (.classRef "com.example.Log") showKey [.placeholder "a"])] ∧
      "a" ∉ Stmt.allPlaceholderUses [.localVar "t" (.plain "int") (some (.literal (.int 0)))] := by
  have hbound : capturing.bindings.get? "a" = some ⟨variableX, .plain "int"⟩ := rfl
  have hlocal : capturing.bindings.locals.get? "t" = some "x" := rfl
  have hstmts : [Stmt.localVar "t" (.plain "int") (some (.literal (.int 0))),
      .expr (.call (.classRef "com.example.Log") showKey [.placeholder "a"])] =
      [] ++ [Stmt.localVar "t" (.plain "int") (some (.literal (.int 0))),
        .expr (.call (.classRef "com.example.Log") showKey [.placeholder "a"])] := rfl
  obtain ⟨hbehind, hupTo⟩ := usedBehind_of_captures rfl hstmts capturing_mem_instances
    declaresFirst_showingX hbound hlocal mentionsLocal_variableX
  exact ⟨capturing_mem_instances, declaresFirst_showingX, mentionsLocal_variableX, hbehind,
    hupTo hasClassReceivers_shownBehind⟩

/-- **A placeholder can capture a local of the template.** -/
theorem exists_captured :
    ∃ i ∈ shownBehind.instances Hierarchy.javaLang.oracle
        (Fresh.block [declarationX, showingX]) none, ∃ bound localName,
      i.bindings.get? "a" = some bound ∧ i.bindings.locals.get? "t" = some localName ∧
      bound.node.MentionsLocal localName :=
  ⟨capturing, capturing_mem_instances, ⟨variableX, .plain "int"⟩, "x", rfl, rfl,
    mentionsLocal_variableX⟩

end Template

end Codemod
