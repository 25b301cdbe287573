import Codemod.Proofs.Tree.Literal
/-!
# Prints without comments

The print of a tree is code with no comment in it where all names that it is
written with are harmless (`Node.isQuiet_text`). Between the prints of two
children of a node there is always text of the node itself
(`Piece.Spaced`), so two literals never meet.
-/

namespace Codemod

open Comment Layout

/-- None of the names has a slash or a quote. -/
def AreHarmless (names : List String) : Prop := ∀ name ∈ names, IsHarmless name

section

variable {names others : List String} {name : String}

theorem areHarmless_cons : AreHarmless (name :: names) ↔ IsHarmless name ∧ AreHarmless names :=
  List.forall_mem_cons

theorem areHarmless_append :
    AreHarmless (names ++ others) ↔ AreHarmless names ∧ AreHarmless others :=
  List.forall_mem_append

theorem areHarmless_flatMap {α : Type} {as : List α} {f : α → List String} :
    AreHarmless (as.flatMap f) ↔ ∀ a ∈ as, AreHarmless (f a) :=
  List.forall_mem_flatMap

end

/-! ## Types -/

namespace Ty

mutual

/-- The names that a type is written with. -/
def writtenNames : Ty → List String
  | .named name args => name :: allWrittenNames args
  | .var name _ _ => [name]

/-- The names that several types are written with. -/
def allWrittenNames : List Ty → List String
  | [] => []
  | ty :: rest => writtenNames ty ++ allWrittenNames rest

end

mutual

theorem isHarmless_toSource {ty : Ty} (h : AreHarmless ty.writtenNames) :
    IsHarmless ty.toSource := by
  match ty with
  | .named name [] => exact (areHarmless_cons.1 h).1.simple
  | .named name (arg :: args) =>
    obtain ⟨hname, hargs⟩ := areHarmless_cons.1 h
    have htexts := isHarmless_allToSource hargs
    have hlist := isHarmless_intercalate (w := ", ") (by decide) htexts
    rw [toSource]
    exact ((hname.simple.append (by decide)).append hlist).append (by decide)
  | .var name _ _ => exact (areHarmless_cons.1 h).1

theorem isHarmless_allToSource {tys : List Ty} (h : AreHarmless (allWrittenNames tys)) :
    ∀ t ∈ allToSource tys, IsHarmless t := by
  match tys with
  | [] => exact List.forall_mem_nil _
  | ty :: rest =>
    obtain ⟨hfirst, hrest⟩ := areHarmless_append.1 h
    exact List.forall_mem_cons.2 ⟨isHarmless_toSource hfirst, isHarmless_allToSource hrest⟩

end

end Ty

/-! ## Annotations -/

namespace AnnotationValue

mutual

/-- The names in a value of an annotation. -/
def writtenNames : AnnotationValue → List String
  | .type ty => ty.writtenNames
  | .list items => allWrittenNames items
  | .bool _ | .str _ => []

/-- The names in several values. -/
def allWrittenNames : List AnnotationValue → List String
  | [] => []
  | v :: rest => writtenNames v ++ allWrittenNames rest

end

mutual

/-- Texts in annotations may hold anything. -/
theorem isQuiet_toSource {v : AnnotationValue} (h : AreHarmless v.writtenNames) :
    IsQuiet v.toSource := by
  match v with
  | .bool b => cases b <;> decide
  | .str s => exact Comment.isQuiet_toSource (.str s)
  | .type ty => exact ((Ty.isHarmless_toSource h).append (by decide)).isQuiet
  | .list items =>
    have hitems := isQuiet_intercalate (w := ", ") (by decide) (isQuiet_allToSource h)
    have hopen : Separates "\x7b" := by decide
    have hclose : Separates "\x7d" := by decide
    exact ((hopen.append hitems).append hclose.stays).isQuiet

theorem isQuiet_allToSource {vs : List AnnotationValue} (h : AreHarmless (allWrittenNames vs)) :
    ∀ t ∈ allToSource vs, IsQuiet t := by
  match vs with
  | [] => exact List.forall_mem_nil _
  | v :: rest =>
    obtain ⟨hfirst, hrest⟩ := areHarmless_append.1 h
    exact List.forall_mem_cons.2 ⟨isQuiet_toSource hfirst, isQuiet_allToSource hrest⟩

end

end AnnotationValue

namespace Annotation

/-- The name of an annotation, its keys, and the names in its values. -/
def writtenNames (a : Annotation) : List String :=
  a.name :: a.values.entries.flatMap fun (key, v) => key :: v.writtenNames

theorem stays_toSource {a : Annotation} (h : AreHarmless a.writtenNames) : Stays a.toSource := by
  obtain ⟨hname, hvalues⟩ := areHarmless_cons.1 h
  have hat : IsHarmless ("@" ++ Name.simple a.name) := IsHarmless.append (by decide) hname.simple
  have hopen : Separates ("@" ++ Name.simple a.name ++ "(") :=
    hat.stays.append_separates (by decide)
  have hclose : Separates ")" := by decide
  have hentries := areHarmless_flatMap.1 hvalues
  unfold toSource
  dsimp only
  split
  · exact hat.stays
  · rename_i v hentry
    have hv := hentries ("value", v) (hentry ▸ List.mem_cons_self)
    have hquiet := AnnotationValue.isQuiet_toSource (areHarmless_cons.1 hv).2
    exact (hopen.append hquiet).append hclose.stays
  · have htexts : ∀ t ∈ a.values.entries.map fun (k, v) => k ++ " = " ++ v.toSource,
        IsQuiet t := by
      refine List.forall_mem_map.2 fun entry hentry => ?_
      obtain ⟨hkey, hv⟩ := areHarmless_cons.1 (hentries entry hentry)
      exact hkey.isQuiet.append_append (by decide) (AnnotationValue.isQuiet_toSource hv)
    have hlist := isQuiet_intercalate (w := ", ") (by decide) htexts
    exact (hopen.append hlist).append hclose.stays

end Annotation

/-! ## Declarations -/

/-- The names of a type variable and of its upper bound, the one that is
written. -/
def TypeVar.writtenNames (v : TypeVar) : List String :=
  v.name :: v.upper.toList.flatMap Ty.writtenNames

/-- The names that a parameter is written with. -/
def Param.writtenNames (p : Param) : List String :=
  p.name :: (p.ty.writtenNames ++ p.annotations.flatMap Annotation.writtenNames)

/-- The names that a method is written with, but for its body. -/
def MethodHead.writtenNames (m : MethodHead) : List String :=
  m.name :: (m.annotations.flatMap Annotation.writtenNames ++
    m.typeParams.flatMap TypeVar.writtenNames ++ m.params.flatMap Param.writtenNames ++
    m.returnType.writtenNames)

/-- The names that a class is written with, but for its members. -/
def ClassHead.writtenNames (c : ClassHead) : List String :=
  c.name :: (c.annotations.flatMap Annotation.writtenNames ++
    c.typeParams.flatMap TypeVar.writtenNames)

namespace Layout

variable {depth : Nat}

theorem isHarmless_newline (depth : Nat) : IsHarmless (newline depth) := by
  have hblanks : IsHarmless (String.join (List.replicate depth "    ")) := by
    induction depth with
    | zero => decide
    | succ depth ih =>
      rw [List.replicate_succ, String.join_cons]
      exact IsHarmless.append (by decide) ih
  exact IsHarmless.append (by decide) hblanks

theorem separates_newline (depth : Nat) : Separates (newline depth) :=
  (isHarmless_newline depth).separates (by simp [newline])

theorem isHarmless_typeParam {v : TypeVar} (h : AreHarmless v.writtenNames) :
    IsHarmless (typeParam v) := by
  obtain ⟨hname, hupper⟩ := areHarmless_cons.1 h
  unfold typeParam
  split
  · rename_i upper hsome
    have hbound := areHarmless_flatMap.1 hupper upper (hsome ▸ List.mem_singleton_self upper)
    exact (hname.append (by decide)).append (Ty.isHarmless_toSource hbound)
  · exact hname

theorem isHarmless_typeParams {vars : List TypeVar}
    (h : AreHarmless (vars.flatMap TypeVar.writtenNames)) : IsHarmless (typeParams vars) := by
  have htexts : ∀ t ∈ vars.map typeParam, IsHarmless t :=
    List.forall_mem_map.2 fun v hv => isHarmless_typeParam (areHarmless_flatMap.1 h v hv)
  unfold typeParams
  split
  · decide
  · have hlist := isHarmless_intercalate (w := ", ") (by decide) htexts
    exact (IsHarmless.append (by decide) hlist).append (by decide)

/-- Annotations that are each followed by harmless text stay in code. -/
theorem stays_annotated {as : List Annotation} {w : String}
    (h : AreHarmless (as.flatMap Annotation.writtenNames)) (hw : IsHarmless w) :
    Stays (String.join (as.map fun a => a.toSource ++ w)) := by
  refine stays_join (List.forall_mem_map.2 fun a ha => ?_)
  have hannotation := Annotation.stays_toSource (areHarmless_flatMap.1 h a ha)
  exact hannotation.append hw.stays

theorem stays_param {p : Param} (h : AreHarmless p.writtenNames) : Stays (param p) := by
  obtain ⟨hname, hrest⟩ := areHarmless_cons.1 h
  obtain ⟨hty, hannotations⟩ := areHarmless_append.1 hrest
  have hwritten := (Ty.isHarmless_toSource hty).append (u := " ") (by decide)
  have hannotated := stays_annotated (w := " ") hannotations (by decide)
  unfold param
  rw [String.append_assoc, String.append_assoc]
  exact hannotated.append (String.append_assoc ▸ (hwritten.append hname).stays)

/-- The head of a method stays in code. -/
theorem stays_methodHead {m : MethodHead} (h : AreHarmless m.writtenNames) :
    Stays (methodHead depth m) := by
  obtain ⟨hname, hrest⟩ := areHarmless_cons.1 h
  obtain ⟨hrest, hreturn⟩ := areHarmless_append.1 hrest
  obtain ⟨hrest, hparams⟩ := areHarmless_append.1 hrest
  obtain ⟨hannotations, htypeParams⟩ := areHarmless_append.1 hrest
  have hvars :
      IsHarmless (if m.typeParams.isEmpty then "" else typeParams m.typeParams ++ " ") := by
    split
    · decide
    · exact (isHarmless_typeParams htypeParams).append (by decide)
  have hbefore : Stays (annotations depth m.annotations ++
      (if m.typeParams.isEmpty then "" else typeParams m.typeParams ++ " ") ++
        m.returnType.toSource ++ " " ++ m.name) :=
    ((((stays_annotated hannotations (isHarmless_newline depth)).append hvars.stays).append
      (Ty.isHarmless_toSource hreturn).stays).append (by decide : Separates " ").stays).append
        hname.stays
  have hlist := isQuiet_intercalate (w := ", ") (by decide) (List.forall_mem_map.2 fun p hp =>
    (stays_param (areHarmless_flatMap.1 hparams p hp)).isQuiet)
  have hopened := (hbefore.append_separates (by decide : Separates "(")).append hlist
  exact hopened.append (by decide : Separates ")").stays

/-- Behind the head of a class anything may stand. -/
theorem separates_classHead {c : ClassHead} (h : AreHarmless c.writtenNames) :
    Separates (classHead depth c) := by
  obtain ⟨hname, hrest⟩ := areHarmless_cons.1 h
  obtain ⟨hannotations, htypeParams⟩ := areHarmless_append.1 hrest
  have hbefore : Stays (annotations depth c.annotations ++ "class " ++ Name.simple c.name ++
      typeParams c.typeParams) :=
    (((stays_annotated hannotations (isHarmless_newline depth)).append
      (by decide : Separates "class ").stays).append hname.simple.stays).append
        (isHarmless_typeParams htypeParams).stays
  exact hbefore.append_separates (by decide)

end Layout

/-! ## Pieces -/

namespace Piece

variable {depth : Nat} {t : String} {ps : List Piece}

/-- Between children there is text of the node, behind which anything may
stand; a name or a literal stands alone. -/
inductive Spaced : List Piece → Prop
  | nil : Spaced []
  | alone {t : String} : IsQuiet t → Spaced [.own t]
  | own {t : String} {ps : List Piece} : Separates t → Spaced ps → Spaced (.own t :: ps)
  | last (n : Node) : Spaced [.part n]
  | part {t : String} {ps : List Piece} (n : Node) :
      Separates t → Spaced ps → Spaced (.part n :: .own t :: ps)

/-- **Quiet texts in their places are quiet together.** -/
theorem Spaced.isQuiet (h : Spaced ps) (hparts : ∀ n ∈ nodes ps, IsQuiet (n.text depth)) :
    IsQuiet (textOf depth ps) := by
  induction h with
  | nil => exact .inl rfl
  | alone ht =>
    rw [textOf_cons, textOf_nil, String.append_empty]
    exact ht
  | own ht _ ih =>
    rw [textOf_cons]
    exact (ht.append (ih hparts)).isQuiet
  | last n =>
    rw [textOf_cons, textOf_nil, String.append_empty]
    exact hparts n List.mem_cons_self
  | part n ht _ ih =>
    obtain ⟨hn, hrest⟩ := List.forall_mem_cons.1 hparts
    rw [textOf_cons, textOf_cons]
    exact hn.append (ht.append (ih hrest))

/-- Text of the node may follow a condition. -/
theorem Spaced.enclosed (ht : Separates t) (h : Spaced ps) (cond : Node) :
    Spaced (enclosed cond ++ .own t :: ps) := by
  unfold Piece.enclosed
  split
  · exact .part cond ht h
  · exact .own (by decide) (.part cond (by decide) (.own ht h))

theorem Spaced.joined {sep : String} (hsep : Separates sep) (ht : Separates t) (h : Spaced ps)
    (ns : List Node) : Spaced (joined sep ns ++ .own t :: ps) := by
  induction ns with
  | nil => exact .own ht h
  | cons n rest ih =>
    cases rest with
    | nil => exact .part n ht h
    | cons m rest =>
      rw [Piece.joined]
      · exact .part n hsep ih
      · simp

theorem Spaced.lined (ht : Separates t) (h : Spaced ps) (ns : List Node) :
    Spaced (lined depth ns ++ .own t :: ps) := by
  induction ns with
  | nil => exact .own ht h
  | cons n rest ih =>
    have hbreak : Separates (newline depth) := separates_newline depth
    cases rest with
    | nil => exact .own hbreak (.part n ht h)
    | cons m rest =>
      cases ih with
      | own _ hrest => exact .own hbreak (.part n hbreak hrest)

end Piece

namespace Node

variable {depth : Nat} {n c : Node}

/-- The names that a node itself is written with. -/
def writtenNames : Node → List String
  | .ident _ name | .select _ _ name _ | .methodRef _ _ name => [name]
  | .cast _ target _ => target.writtenNames
  | .localVar _ name declared _ => name :: declared.writtenNames
  | .methodDecl _ head _ => head.writtenNames
  | .classDecl _ head _ => head.writtenNames
  | _ => []

/-- No name in the tree has a slash or a quote. -/
def HasHarmlessNames (n : Node) : Prop := ∀ m ∈ n.preorder, AreHarmless m.writtenNames

theorem hasHarmlessNames_iff :
    n.HasHarmlessNames ↔ AreHarmless n.writtenNames ∧ ∀ c ∈ n.children, c.HasHarmlessNames := by
  unfold HasHarmlessNames
  rw [preorder_eq, List.forall_mem_cons, List.forall_mem_flatMap]

/-- **Text of a node stands between its children**, whatever node it is. -/
theorem spaced_pieces (h : AreHarmless n.writtenNames) : Piece.Spaced (n.pieces depth) := by
  cases n
  case ident _ name => exact .alone (h name List.mem_cons_self).isQuiet
  case literal _ value => exact .alone (Comment.isQuiet_toSource value)
  case select _ target name _ =>
    have hname : IsHarmless ("." ++ name) :=
      IsHarmless.append (by decide) (h name List.mem_cons_self)
    exact .part target (hname.separates (by simp)) .nil
  case methodRef _ target name =>
    have hname : IsHarmless ("::" ++ name) :=
      IsHarmless.append (by decide) (h name List.mem_cons_self)
    exact .part target (hname.separates (by simp)) .nil
  case call _ callee args =>
    exact .part callee (by decide) (.joined (by decide) (by decide) .nil args)
  case unary _ op operand =>
    have hop : Separates op.symbol := by cases op <;> decide
    exact .own hop (.last operand)
  case binary _ op lhs rhs =>
    have hop : Separates (infixOp op) := by cases op <;> decide
    exact .part lhs hop (.last rhs)
  case cast _ target expr =>
    have hhead : IsHarmless (castHead target) :=
      (IsHarmless.append (by decide) (Ty.isHarmless_toSource h)).append (by decide)
    exact .own (hhead.separates (by simp [castHead])) (.last expr)
  case paren _ expr => exact .own (by decide) (.part expr (by decide) .nil)
  case block _ stmts =>
    have hclose : Separates (newline depth ++ "\x7d") :=
      (separates_newline depth).stays.append_separates (by decide)
    exact .own (by decide) (.lined hclose .nil stmts)
  case exprStmt _ expr => exact .part expr (by decide) .nil
  case ret _ expr =>
    cases expr with
    | none => exact .own (by decide) .nil
    | some expr => exact .own (by decide) (.part expr (by decide) .nil)
  case localVar _ name declared init =>
    obtain ⟨hname, hty⟩ := areHarmless_cons.1 h
    have hhead : IsHarmless (localHead name declared) :=
      ((Ty.isHarmless_toSource hty).append (by decide)).append hname
    cases init with
    | none => exact .own (hhead.stays.append_separates (by decide)) .nil
    | some init =>
      exact .own (hhead.stays.append_separates (by decide)) (.part init (by decide) .nil)
  case ifElse _ cond thenBranch elseBranch =>
    cases elseBranch with
    | none => exact .own (by decide) (.enclosed (by decide) (.last thenBranch) cond)
    | some elseBranch =>
      exact .own (by decide) (.enclosed (by decide)
        (.part thenBranch (by decide) (.last elseBranch)) cond)
  case whileLoop _ cond body =>
    exact .own (by decide) (.enclosed (by decide) (.last body) cond)
  case doWhile _ body cond =>
    exact .own (by decide) (.part body (by decide) (.enclosed (by decide) .nil cond))
  case synchronized _ lock body =>
    exact .own (by decide) (.enclosed (by decide) (.last body) lock)
  case methodDecl _ head body =>
    cases body with
    | none => exact .own ((stays_methodHead h).append_separates (by decide)) .nil
    | some body => exact .own ((stays_methodHead h).append_separates (by decide)) (.last body)
  case classDecl _ head members =>
    have hclose : Separates (newline depth ++ "\x7d") :=
      (separates_newline depth).stays.append_separates (by decide)
    exact .own (separates_classHead h) (.lined hclose .nil members)
  case unit _ items => exact .joined (by decide) (by decide) .nil items

/-- **The print of a tree is code with no comment in it**, at any nesting depth,
where no name has a slash or a quote. -/
theorem isQuiet_text (h : n.HasHarmlessNames) (depth : Nat) : IsQuiet (n.text depth) := by
  induction n using inductionOnChildren generalizing depth with
  | h n ih =>
    obtain ⟨hnames, hchildren⟩ := hasHarmlessNames_iff.1 h
    rw [text_eq]
    refine (spaced_pieces hnames).isQuiet fun c hc => ?_
    rw [← children_eq] at hc
    exact ih c hc (hchildren c hc) _

/-- So are lines of such prints. -/
theorem isQuiet_intercalate_texts {ns : List Node} (h : ∀ n ∈ ns, n.HasHarmlessNames)
    (depth : Nat) : IsQuiet ((newline depth).intercalate (texts depth ns)) := by
  have htexts : ∀ t ∈ texts depth ns, IsQuiet t := by
    induction ns with
    | nil => exact List.forall_mem_nil _
    | cons n ns ih =>
      obtain ⟨hfirst, hrest⟩ := List.forall_mem_cons.1 h
      exact List.forall_mem_cons.2 ⟨isQuiet_text hfirst depth, ih hrest⟩
  exact isQuiet_intercalate (separates_newline depth) htexts

/-! ## Placed trees -/

theorem writtenNames_place (depth offset : Nat) (n : Node) :
    (n.place depth offset).writtenNames = n.writtenNames := by
  cases n
  case ret _ e => cases e <;> rfl
  case localVar _ _ _ init => cases init <;> rfl
  case methodDecl _ _ body => cases body <;> rfl
  case ifElse _ _ _ elseBranch => cases elseBranch <;> rfl
  all_goals rfl

theorem HasHarmlessNames.place (h : n.HasHarmlessNames) (depth : Nat) (l : String) :
    (n.place depth (Text.byteCount l)).HasHarmlessNames := by
  induction n using inductionOnChildren generalizing depth l with
  | h n ih =>
    obtain ⟨hnames, hchildren⟩ := hasHarmlessNames_iff.1 h
    refine hasHarmlessNames_iff.2 ⟨?_, fun c hc => ?_⟩
    · rwa [writtenNames_place]
    · obtain ⟨m, hm, before, -, rfl, -⟩ := exists_of_mem_children_place hc
      exact ih m hm (hchildren m hm) _ _

/-- **A tree that is laid out keeps its names.** -/
theorem HasHarmlessNames.laidOut (h : n.HasHarmlessNames) : n.laidOut.HasHarmlessNames :=
  h.place 0 ""

theorem HasHarmlessNames.of_stands {root : Node} (hroot : root.HasHarmlessNames)
    (h : root.Stands depth n) : n.HasHarmlessNames := by
  induction h with
  | root => exact hroot
  | child _ hc ih => exact (hasHarmlessNames_iff.1 ih).2 _ hc

end Node

end Codemod
