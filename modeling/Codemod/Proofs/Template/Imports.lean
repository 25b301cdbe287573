import Codemod.Proofs.Dict
import Codemod.Proofs.Template.Rendering
import Codemod.Tree.Fresh
import Codemod.Types.Hierarchy
/-!
# What a rendered template imports

A template names classes in three places: where it refers to one, in the types of
its casts, and in the types of the locals it declares, once its type variables
stand for types (`Template.Body.Names`). Rendering asks for exactly these. It
succeeds if all of them exist, fails by naming one that does not, and imports those
that are not seen everywhere (`Template.imports_of_render`).

Asking for classes is a side effect of every step, so `RenderContext.Asks` says of
one step which classes it asks for, and a step made of two asks for what both ask
for (`RenderContext.Asks.union`).
-/

namespace Codemod

open Rendering

/-! ## Classes that every unit sees -/

/-- The class is one of `java.lang` itself, not of a package or a class in it. -/
def Name.IsTopLevelOfLang (name : String) : Prop :=
  ∃ simple : String, name = "java.lang." ++ simple ∧ '.' ∉ simple.toList

namespace Rendering

theorem segments_of_lang (rest : String) :
    Name.segments ("java.lang." ++ rest) =
      "java".toList :: "lang".toList :: Name.segments rest := by
  rw [Name.segments, String.toList_append,
    show "java.lang.".toList ++ rest.toList =
      "java".toList ++ '.' :: ("lang".toList ++ '.' :: rest.toList) from rfl,
    List.splitOn_append_cons_self, List.splitOn_append_cons_self,
    List.splitOn_eq_singleton (by decide), List.splitOn_eq_singleton (by decide)]
  rfl

/-- A name without a dot is its own only segment, and no other name is. -/
theorem segments_eq_singleton_iff {name : String} {segment : List Char} :
    Name.segments name = [segment] ↔ '.' ∉ name.toList ∧ segment = name.toList := by
  constructor
  · intro h
    have hjoin := @List.intercalate_splitOn _ name.toList _ _ '.'
    rw [← Name.segments, h] at hjoin
    refine ⟨fun hdot => ?_, by simpa using hjoin⟩
    obtain ⟨before, after, hsplit⟩ := List.append_of_mem hdot
    rw [Name.segments, hsplit, List.splitOn_append_cons_self] at h
    have hlength := congrArg List.length h
    have hbefore := List.length_pos_iff.2 (List.splitOn_ne_nil '.' before)
    have hafter := List.length_pos_iff.2 (List.splitOn_ne_nil '.' after)
    rw [List.length_append, List.length_singleton] at hlength
    omega
  · rintro ⟨hdot, rfl⟩
    exact List.splitOn_eq_singleton hdot

theorem isImplicitlyImported_iff {name : String} :
    isImplicitlyImported name = true ↔ Name.IsTopLevelOfLang name := by
  constructor
  · intro h
    rw [isImplicitlyImported] at h
    split at h
    · rename_i first second third hsegments
      rw [Bool.and_eq_true, beq_iff_eq, beq_iff_eq] at h
      obtain ⟨rfl, rfl⟩ := h
      have hjoin := @List.intercalate_splitOn _ name.toList _ _ '.'
      rw [← Name.segments, hsegments] at hjoin
      have hname : name = "java.lang." ++ String.ofList third := by
        rw [← String.toList_inj, ← hjoin]
        simp [List.intercalate]
      refine ⟨String.ofList third, hname, ?_⟩
      rw [hname, segments_of_lang] at hsegments
      exact (segments_eq_singleton_iff.1 (List.cons.inj (List.cons.inj hsegments).2).2).1
    · exact absurd h (by simp)
  · rintro ⟨simple, rfl, hdot⟩
    rw [isImplicitlyImported, segments_of_lang, segments_eq_singleton_iff.2 ⟨hdot, rfl⟩]
    rfl

end Rendering

/-! ## The classes that a type names -/

namespace Ty

/-- The type names the class as it is written: itself or in a type argument. The
bounds of a variable are not written where the variable is used. -/
inductive Names : Ty → String → Prop
  | head {name : String} {args : List Ty} : Names (.named name args) name
  | arg {name other : String} {args : List Ty} {arg : Ty} :
      arg ∈ args → Names arg other → Names (.named name args) other

theorem names_named_iff {name other : String} {args : List Ty} :
    (Ty.named name args).Names other ↔ other = name ∨ ∃ arg ∈ args, arg.Names other := by
  constructor
  · intro h
    cases h with
    | head => exact .inl rfl
    | arg hmem harg => exact .inr ⟨_, hmem, harg⟩
  · rintro (rfl | ⟨arg, hmem, harg⟩)
    · exact .head
    · exact .arg hmem harg

mutual

theorem mem_classNames_iff {ty : Ty} {name : String} :
    name ∈ ty.classNames ↔ ty.Names name ∧ Name.isPrimitive name = false := by
  match ty with
  | .var .. => exact ⟨fun h => absurd h List.not_mem_nil, fun ⟨h, _⟩ => nomatch h⟩
  | .named head args =>
    rw [names_named_iff, classNames]
    by_cases hprimitive : Name.isPrimitive head = true
    · -- A primitive is not listed itself.
      rw [if_pos hprimitive, mem_allClassNames_iff]
      refine and_congr_left fun hname => ?_
      refine ⟨.inr, fun h => h.resolve_left ?_⟩
      rintro rfl
      simp [hprimitive] at hname
    · rw [if_neg hprimitive, List.mem_cons, mem_allClassNames_iff, or_and_right]
      refine or_congr_left ⟨?_, And.left⟩
      rintro rfl
      exact ⟨rfl, by simpa using hprimitive⟩

theorem mem_allClassNames_iff {tys : List Ty} {name : String} :
    name ∈ allClassNames tys ↔
      (∃ ty ∈ tys, ty.Names name) ∧ Name.isPrimitive name = false := by
  match tys with
  | [] => simp [allClassNames]
  | ty :: rest =>
    rw [allClassNames, List.mem_append, mem_classNames_iff, mem_allClassNames_iff,
      ← or_and_right, List.exists_mem_cons_iff]

end

end Ty

/-! ## The classes that a template names -/

namespace Template

variable {types : Dict Ty} {name : String}

/-- The body names the class where its type variables stand for the types: it
refers to it, or the type of a cast or of a local names it, primitives apart. -/
inductive Body.Names (types : Dict Ty) (body : Body) (name : String) : Prop
  | reference {e : Expr} : e ∈ body.exprs → .classRef name ∈ e.parts → Names types body name
  | cast {e operand : Expr} {target : Ty} : e ∈ body.exprs → .cast target operand ∈ e.parts →
      (target.substitute types).Names name → Name.isPrimitive name = false → Names types body name
  | declaration {stmts : List Stmt} {declared : String} {ty : Ty} {init : Option Expr} :
      body = .block stmts → .localVar declared ty init ∈ stmts →
      (ty.substitute types).Names name → Name.isPrimitive name = false → Names types body name

/-- The classes that parts of expressions name, each by itself. -/
def classesOf (types : Dict Ty) (parts : List Expr) : List String :=
  parts.flatMap fun
    | .classRef name => [name]
    | .cast target _ => (target.substitute types).classNames
    | _ => []

theorem classesOf_append (ps qs : List Expr) :
    classesOf types (ps ++ qs) = classesOf types ps ++ classesOf types qs :=
  List.flatMap_append

theorem mem_classesOf_iff {parts : List Expr} :
    name ∈ classesOf types parts ↔ .classRef name ∈ parts ∨ ∃ target operand,
      .cast target operand ∈ parts ∧ (target.substitute types).Names name ∧
        Name.isPrimitive name = false := by
  rw [classesOf, List.mem_flatMap]
  constructor
  · rintro ⟨part, hpart, hname⟩
    split at hname
    · obtain rfl := List.mem_singleton.1 hname
      exact .inl hpart
    · exact .inr ⟨_, _, hpart, Ty.mem_classNames_iff.1 hname⟩
    · exact absurd hname List.not_mem_nil
  · rintro (hpart | ⟨target, operand, hpart, hnames⟩)
    · exact ⟨_, hpart, List.mem_singleton_self _⟩
    · exact ⟨_, hpart, Ty.mem_classNames_iff.2 hnames⟩

namespace Stmt

/-- The classes that a statement names. -/
def classes (types : Dict Ty) : Stmt → List String
  | .expr e => classesOf types e.parts
  | .ret none => []
  | .ret (some e) => classesOf types e.parts
  | .localVar _ ty none => (ty.substitute types).classNames
  | .localVar _ ty (some e) => (ty.substitute types).classNames ++ classesOf types e.parts

theorem mem_classes_iff {s : Stmt} :
    name ∈ s.classes types ↔ (∃ e ∈ s.expr?, name ∈ classesOf types e.parts) ∨
      ∃ declared ty init, s = .localVar declared ty init ∧
        (ty.substitute types).Names name ∧ Name.isPrimitive name = false := by
  cases s with
  | expr e => simp [classes, expr?]
  | ret e => cases e <;> simp [classes, expr?]
  | localVar declared ty init =>
    cases init with
    | none => simp [classes, expr?, Ty.mem_classNames_iff]
    | some e => simp [classes, expr?, Ty.mem_classNames_iff, or_comm]

end Stmt

/-- The classes that a body names, in the order in which rendering meets them. -/
def Body.classes (types : Dict Ty) : Body → List String
  | .expr e => classesOf types e.parts
  | .block stmts => stmts.flatMap (Stmt.classes types)

theorem Body.mem_classes_iff {body : Body} :
    name ∈ body.classes types ↔ body.Names types name := by
  have hnames : ∀ e ∈ body.exprs, name ∈ classesOf types e.parts → body.Names types name := by
    intro e he hname
    rcases mem_classesOf_iff.1 hname with hpart | ⟨target, operand, hpart, hnames, hprimitive⟩
    · exact .reference he hpart
    · exact .cast he hpart hnames hprimitive
  have hclasses : ∀ e ∈ body.exprs, name ∈ classesOf types e.parts → name ∈ body.classes types := by
    intro e he hname
    cases body with
    | expr e' => exact List.mem_singleton.1 he ▸ hname
    | block stmts =>
      obtain ⟨s, hs, he⟩ := List.mem_filterMap.1 he
      exact List.mem_flatMap.2 ⟨s, hs, Stmt.mem_classes_iff.2 (.inl ⟨e, he, hname⟩)⟩
  constructor
  · intro hname
    cases body with
    | expr e => exact hnames e (List.mem_singleton_self e) hname
    | block stmts =>
      obtain ⟨s, hs, hname⟩ := List.mem_flatMap.1 hname
      rcases Stmt.mem_classes_iff.1 hname with ⟨e, he, hname⟩ | ⟨_, _, _, rfl, hty, hprimitive⟩
      · exact hnames e (List.mem_filterMap.2 ⟨s, hs, he⟩) hname
      · exact .declaration rfl hs hty hprimitive
  · intro hname
    cases hname with
    | reference he hpart => exact hclasses _ he (mem_classesOf_iff.2 (.inl hpart))
    | cast he hpart hty hprimitive =>
      exact hclasses _ he (mem_classesOf_iff.2 (.inr ⟨_, _, hpart, hty, hprimitive⟩))
    | declaration hbody hs hty hprimitive =>
      subst hbody
      exact List.mem_flatMap.2
        ⟨_, hs, Stmt.mem_classes_iff.2 (.inr ⟨_, _, _, rfl, hty, hprimitive⟩)⟩

end Template

/-! ## What a step of rendering asks for -/

namespace RenderContext

open Template

variable {c : RenderContext} {α β γ : Type} {classes more : List String}

/-- **The step asks for the classes.** It has a result if they all exist, from which
come the imports of those that are not seen everywhere; otherwise it fails by naming
one that does not exist. -/
inductive Asks (c : RenderContext) (classes : List String) (imports : α → NameSet) :
    Except RenderError α → Prop
  | ok {a : α} : (∀ name ∈ classes, c.oracle.canResolve name = true) →
      (∀ name, name ∈ (imports a).toList ↔
        name ∈ classes ∧ isImplicitlyImported name = false) →
      Asks c classes imports (.ok a)
  | missing {name : String} : name ∈ classes → c.oracle.canResolve name = false →
      Asks c classes imports (.error (.unresolvedImport c.rule name))

namespace Asks

variable {imports : α → NameSet} {imports' : β → NameSet} {imports'' : γ → NameSet}
  {x : Except RenderError α} {y : Except RenderError β}

/-- What needs no class asks for none. -/
theorem nothing {a : α} (h : imports a = .empty) : c.Asks [] imports (.ok a) :=
  .ok nofun fun name => by simp [h]

/-- Going on with the same imports asks for nothing more. -/
theorem map (h : c.Asks classes imports x) {f : α → β} (hf : ∀ a, imports' (f a) = imports a) :
    c.Asks classes imports' (x >>= fun a => pure (f a)) := by
  cases h with
  | ok hresolved himports => exact .ok hresolved fun name => by rw [hf, himports]
  | missing hmem hmissing => exact .missing hmem hmissing

/-- **Two steps ask for the classes of both.** -/
theorem union (hx : c.Asks classes imports x) (hy : c.Asks more imports' y) {f : α → β → γ}
    (hf : ∀ a b, imports'' (f a b) = (imports a).union (imports' b)) :
    c.Asks (classes ++ more) imports'' (x >>= fun a => y >>= fun b => pure (f a b)) := by
  cases hx with
  | missing hmem hmissing => exact .missing (List.mem_append_left _ hmem) hmissing
  | ok hresolved himports =>
    cases hy with
    | missing hmem hmissing => exact .missing (List.mem_append_right _ hmem) hmissing
    | ok hresolved' himports' =>
      refine .ok (List.forall_mem_append.2 ⟨hresolved, hresolved'⟩) fun name => ?_
      rw [hf, NameSet.mem_union, himports, himports', List.mem_append, or_and_right]

end Asks

theorem asks_require (name : String) : c.Asks [name] id (c.require name) := by
  unfold require
  split
  · rename_i hmissing
    exact .missing (List.mem_singleton_self name) (by simpa using hmissing)
  · rename_i hresolved
    have hall : ∀ other ∈ [name], c.oracle.canResolve other = true := by simpa using hresolved
    split
    · rename_i himplicit
      refine .ok hall fun other => ?_
      constructor
      · exact fun h => absurd h NameSet.mem_empty
      · rintro ⟨hother, himport⟩
        obtain rfl := List.mem_singleton.1 hother
        exact absurd himplicit (by simp [himport])
    · rename_i himplicit
      refine .ok hall fun other => ?_
      rw [id, NameSet.mem_insert, List.mem_singleton]
      refine ⟨?_, fun h => .inl h.1⟩
      rintro (rfl | h)
      · exact ⟨rfl, by simpa using himplicit⟩
      · exact absurd h NameSet.mem_empty

theorem asks_requireAll (names : List String) : c.Asks names id (c.requireAll names) := by
  induction names with
  | nil => exact .nothing rfl
  | cons name rest ih => exact (asks_require name).union ih fun _ _ => rfl

theorem asks_renderTy (ty : Ty) :
    c.Asks (ty.substitute c.bindings.types).classNames (·.imports) (c.renderTy ty) :=
  (asks_requireAll _).map fun _ => rfl

mutual

/-- **Rendering an expression asks for the classes of its parts**, where its
placeholders stand for something. -/
theorem asks_renderExpr {e : Expr} (required : Nat)
    (hbound : ∀ name ∈ e.placeholderUses, (c.bindings.get? name).isSome = true) :
    c.Asks (classesOf c.bindings.types e.parts) (·.imports) (c.renderExpr e required) := by
  match e with
  | .placeholder name =>
    obtain ⟨bound, hname⟩ := Option.isSome_iff_exists.1 (hbound name (List.mem_singleton_self _))
    rw [renderExpr, hname]
    exact .nothing rfl
  | .localRef name => exact .nothing rfl
  | .literal value => exact .nothing rfl
  | .classRef name => exact (asks_require name).map fun _ => rfl
  | .field receiver name => exact (asks_renderExpr (e := receiver) _ hbound).map fun _ => rfl
  | .call receiver method args =>
    rw [Expr.placeholderUses, List.forall_mem_append] at hbound
    rw [show classesOf c.bindings.types (Expr.call receiver method args).parts =
      classesOf c.bindings.types (receiver.parts ++ Expr.allParts args) from rfl,
      classesOf_append]
    exact (asks_renderExpr _ hbound.1).union (asks_renderArgs hbound.2) fun _ _ => rfl
  | .methodRef receiver method =>
    exact (asks_renderExpr (e := receiver) _ hbound).map fun _ => rfl
  | .unary op operand => exact (asks_renderExpr (e := operand) _ hbound).map fun _ => rfl
  | .binary op lhs rhs =>
    rw [Expr.placeholderUses, List.forall_mem_append] at hbound
    rw [show classesOf c.bindings.types (Expr.binary op lhs rhs).parts =
      classesOf c.bindings.types (lhs.parts ++ rhs.parts) from rfl, classesOf_append]
    exact (asks_renderExpr _ hbound.1).union (asks_renderExpr _ hbound.2) fun _ _ => rfl
  | .cast target operand =>
    exact (asks_renderTy target).union (asks_renderExpr (e := operand) _ hbound) fun _ _ => rfl

theorem asks_renderArgs {es : List Expr}
    (hbound : ∀ name ∈ Expr.allPlaceholderUses es, (c.bindings.get? name).isSome = true) :
    c.Asks (classesOf c.bindings.types (Expr.allParts es)) (·.2) (c.renderArgs es) := by
  match es with
  | [] => exact .nothing rfl
  | e :: rest =>
    rw [Expr.allPlaceholderUses, List.forall_mem_append] at hbound
    rw [Expr.allParts, classesOf_append]
    exact (asks_renderExpr _ hbound.1).union (asks_renderArgs hbound.2) fun _ _ => rfl

end

theorem asks_renderStmt {s : Stmt}
    (hbound : ∀ e ∈ s.expr?, ∀ name ∈ e.placeholderUses, (c.bindings.get? name).isSome = true) :
    c.Asks (s.classes c.bindings.types) (·.imports) (c.renderStmt s) := by
  match s with
  | .expr e => exact (asks_renderExpr 0 (hbound e rfl)).map fun _ => rfl
  | .ret none => exact .nothing rfl
  | .ret (some e) => exact (asks_renderExpr 0 (hbound e rfl)).map fun _ => rfl
  | .localVar _ ty none => exact (asks_renderTy ty).map fun _ => rfl
  | .localVar _ ty (some e) =>
    exact (asks_renderTy ty).union (asks_renderExpr 0 (hbound e rfl)) fun _ _ => rfl

theorem asks_renderStmts {stmts : List Stmt}
    (hbound : ∀ e ∈ stmts.filterMap Stmt.expr?, ∀ name ∈ e.placeholderUses,
      (c.bindings.get? name).isSome = true) :
    c.Asks (stmts.flatMap (Stmt.classes c.bindings.types)) (·.2) (c.renderStmts stmts) := by
  induction stmts with
  | nil => exact .nothing rfl
  | cons s rest ih =>
    rw [List.flatMap_cons]
    refine (asks_renderStmt fun e he => ?_).union (ih fun e he => ?_) fun _ _ => rfl
    · exact hbound e (List.mem_filterMap.2 ⟨s, List.mem_cons_self, he⟩)
    · obtain ⟨s', hs', he⟩ := List.mem_filterMap.1 he
      exact hbound e (List.mem_filterMap.2 ⟨s', List.mem_cons_of_mem _ hs', he⟩)

end RenderContext

namespace Template

variable {t : Template} {oracle : TypeOracle} {source rule : String} {b : Bindings} {span : Span}
  {precedence : Nat}

theorem asks_render (hbound : ∀ name ∈ t.referenced, (b.get? name).isSome = true) :
    (RenderContext.mk oracle source rule t.name b).Asks (t.body.classes b.types) (·.imports)
      (t.render oracle source rule b span precedence) := by
  have huses : ∀ e ∈ t.body.exprs, ∀ name ∈ e.placeholderUses, (b.get? name).isSome = true :=
    fun e he name hname => hbound name (mem_referenced_iff.2 ⟨e, he, hname⟩)
  unfold render
  generalize hc : RenderContext.mk oracle source rule t.name b = c
  obtain rfl : b = c.bindings := by rw [← hc]
  cases hbody : t.body with
  | expr e =>
    rw [hbody] at huses
    exact RenderContext.asks_renderExpr precedence (huses e (List.mem_singleton_self e))
  | block stmts =>
    rw [hbody] at huses
    exact (RenderContext.asks_renderStmts huses).map fun _ => rfl

/-- **Rendering imports exactly what its text needs.** Where the placeholders that a
template refers to are bound, it has a text exactly if every class that it names
exists; then it imports those that are not top-level classes of `java.lang`, and
otherwise the error is about a class that it names and that does not exist. -/
theorem imports_of_render (hbound : ∀ name ∈ t.referenced, (b.get? name).isSome = true) :
    ((∃ r, t.render oracle source rule b span precedence = .ok r) ↔
      ∀ name, t.body.Names b.types name → oracle.canResolve name = true) ∧
    (∀ r, t.render oracle source rule b span precedence = .ok r → ∀ name,
      name ∈ r.imports.toList ↔ t.body.Names b.types name ∧ ¬ Name.IsTopLevelOfLang name) ∧
    (∀ e, t.render oracle source rule b span precedence = .error e → ∃ name,
      e = .unresolvedImport rule name ∧ t.body.Names b.types name ∧
        oracle.canResolve name = false) := by
  have hasks := @asks_render t oracle source rule b span precedence hbound
  generalize t.render oracle source rule b span precedence = outcome at hasks
  simp only [← Body.mem_classes_iff, ← isImplicitlyImported_iff, Bool.not_eq_true]
  cases hasks with
  | @ok r hresolved himports =>
    refine ⟨⟨fun _ => hresolved, fun _ => ⟨r, rfl⟩⟩, fun r' hr' => ?_, nofun⟩
    obtain rfl := Except.ok.inj hr'
    exact himports
  | @missing name hmem hmissing =>
    refine ⟨⟨nofun, fun hall => ?_⟩, nofun, fun e he => ?_⟩
    · exact absurd (hall name hmem) (by simpa using hmissing)
    · obtain rfl := Except.error.inj he
      exact ⟨name, rfl, hmem, hmissing⟩

/-! ## Items that are read from a source -/

/-- The expression `(Map<String, T>) Source.read(a)`. -/
def readItems : Template where
  name := "readItems"
  typeParams := [⟨"T", none, none⟩]
  params := [⟨"a", .plain "int", none⟩]
  returnType := .plain "java.lang.Object"
  body := .expr (.cast (.named "java.util.Map" [.plain "java.lang.String", .var "T" none none])
    (.call (.classRef "com.example.Source") ⟨"com.example.Source", "read", true⟩
      [.placeholder "a"]))

/-- The number `x` is read, and `T` stands for `Item`. -/
def readItemsBindings : Bindings :=
  { Bindings.empty.bindExpr "a" ⟨Fresh.ident "x", .plain "int"⟩ with
    types := (∅ : Dict Ty).insert "T" (.plain "com.example.Item") }

/-- The item is imported, which only the substituted type of the cast names, and
`String` is not. Where only declared classes exist, there is no text: `Map` is
missing. -/
theorem imports_readItems :
    (∀ name ∈ readItems.referenced, (readItemsBindings.get? name).isSome = true) ∧
    (∃ r, readItems.render Hierarchy.javaLang.oracle "" "com.example.ReadItems" readItemsBindings
        ⟨0, 0⟩ 0 = .ok r ∧ r.text = "(Map<String, Item>) Source.read(x)" ∧
      r.imports.toList = ["com.example.Item", "com.example.Source", "java.util.Map"] ∧
      readItems.body.Names readItemsBindings.types "com.example.Item") ∧
    ∃ name, readItems.body.Names readItemsBindings.types name ∧
      Hierarchy.javaLang.resolvingOnlyDeclared.oracle.canResolve name = false := by
  have hbound : ∀ name ∈ readItems.referenced, (readItemsBindings.get? name).isSome = true := by
    decide +kernel
  have hread := @imports_of_render readItems Hierarchy.javaLang.oracle "" "com.example.ReadItems"
    readItemsBindings ⟨0, 0⟩ 0 hbound
  have hmissing := @imports_of_render readItems Hierarchy.javaLang.resolvingOnlyDeclared.oracle ""
    "com.example.ReadItems" readItemsBindings ⟨0, 0⟩ 0 hbound
  refine ⟨hbound, ⟨_, rfl, by decide +kernel, by decide +kernel, ?_⟩, ?_⟩
  · exact ((hread.2.1 _ rfl "com.example.Item").1 (by decide +kernel)).1
  · obtain ⟨name, -, hnames, hnone⟩ := hmissing.2.2 _ rfl
    exact ⟨name, hnames, hnone⟩

end Template

end Codemod
