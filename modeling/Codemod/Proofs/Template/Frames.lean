import Codemod.Proofs.Outcome
import Codemod.Proofs.Template.Demands
import Codemod.Template.Rendering
/-!
# Where the text of a part stands

Rendering an expression puts the texts of its operands into a frame
(`RenderContext.Frame`), and a statement puts that of its expression into one
(`RenderContext.StmtFrame`). Frames within frames say what stands before and behind the
text of a part (`RenderContext.Shows`). In the text of a template every part is shown
so (`Template.exists_shows_of_mem_parts`), and stands there as it is rendered
(`Template.Shows.exists_part`).
-/

namespace Codemod

open Outcome Rendering Template

/-! ## Frames -/

namespace Rendering

/-- What stands before a text that is put in parentheses where it has to be. -/
def opening (precedence required : Nat) : List Char := if precedence < required then ['('] else []

/-- What stands behind it. -/
def closing (precedence required : Nat) : List Char := if precedence < required then [')'] else []

theorem toList_parenthesize (precedence required : Nat) (text : String) :
    (parenthesize precedence required text).toList =
      opening precedence required ++ text.toList ++ closing precedence required := by
  unfold parenthesize opening closing
  split <;> simp

/-- What stands before one of the texts that a text is put together from. -/
def leading (sep : String) (texts : List String) : List Char :=
  texts.flatMap fun text => text.toList ++ sep.toList

/-- What stands behind it. -/
def trailing (sep : String) (texts : List String) : List Char :=
  texts.flatMap fun text => sep.toList ++ text.toList

theorem toList_intercalate_cons (sep text : String) (texts : List String) :
    (sep.intercalate (text :: texts)).toList = text.toList ++ trailing sep texts := by
  induction texts generalizing text with
  | nil => simp [trailing]
  | cons next texts ih =>
    rw [String.intercalate_cons_cons, String.toList_append, String.toList_append, ih]
    simp only [trailing, List.flatMap_cons, List.append_assoc]

theorem toList_intercalate_append_cons (sep text : String) (before after : List String) :
    (sep.intercalate (before ++ text :: after)).toList =
      leading sep before ++ text.toList ++ trailing sep after := by
  induction before with
  | nil => exact toList_intercalate_cons sep text after
  | cons first before ih =>
    have hne : before ++ text :: after ≠ [] := by simp
    obtain ⟨next, rest, hrest⟩ := List.exists_cons_of_ne_nil hne
    rw [List.cons_append, hrest, String.intercalate_cons_cons, ← hrest, String.toList_append,
      String.toList_append, ih, leading, leading, List.flatMap_cons]
    simp only [List.append_assoc]

end Rendering

namespace RenderContext

variable {c : RenderContext}

/-- The text of an expression, its own parentheses apart, is the text of an operand
at a place that requires a precedence, between two others. -/
inductive Frame (c : RenderContext) : Expr → Expr → Nat → List Char → List Char → Prop
  | field {receiver : Expr} {name : String} :
    Frame c (.field receiver name) receiver Precedence.primary [] ("." ++ name).toList
  | receiver {receiver : Expr} {method : MethodKey} {args : List Expr}
    {texts : List String × NameSet} : c.renderArgs args = .ok texts →
    Frame c (.call receiver method args) receiver Precedence.primary []
      ("." ++ method.name ++ "(" ++ ", ".intercalate texts.1 ++ ")").toList
  | argument {receiver arg : Expr} {method : MethodKey} {before after : List Expr}
    {target : Replacement} {front back : List String × NameSet} :
    c.renderExpr receiver Precedence.primary = .ok target →
    c.renderArgs before = .ok front → c.renderArgs after = .ok back →
    Frame c (.call receiver method (before ++ arg :: after)) arg 0
      ((target.text ++ "." ++ method.name ++ "(").toList ++ leading ", " front.1)
      (trailing ", " back.1 ++ [')'])
  | methodRef {receiver : Expr} {method : MethodKey} :
    Frame c (.methodRef receiver method) receiver Precedence.primary []
      ("::" ++ method.name).toList
  | unary {op : UnaryOp} {operand : Expr} :
    Frame c (.unary op operand) operand Precedence.unary op.symbol.toList []
  | lhs {op : BinaryOp} {lhs rhs : Expr} {right : Replacement} :
    c.renderExpr rhs (op.precedence + 1) = .ok right →
    Frame c (.binary op lhs rhs) lhs op.precedence [] (Layout.infixOp op ++ right.text).toList
  | rhs {op : BinaryOp} {lhs rhs : Expr} {left : Replacement} :
    c.renderExpr lhs op.precedence = .ok left →
    Frame c (.binary op lhs rhs) rhs (op.precedence + 1) (left.text ++ Layout.infixOp op).toList []
  | cast {target : Ty} {operand : Expr} {ty : Replacement} : c.renderTy target = .ok ty →
    Frame c (.cast target operand) operand Precedence.unary ("(" ++ ty.text ++ ") ").toList []

/-- The text of an expression at a place that requires a precedence shows the text of
a part, at one that may require another, between two others. -/
inductive Shows (c : RenderContext) : Expr → Nat → Expr → Nat → List Char → List Char → Prop
  | itself {e : Expr} {required : Nat} : Shows c e required e required [] []
  | framed {e operand part : Expr} {required inner place : Nat}
    {pre post before after : List Char} : c.Frame e operand inner pre post →
    Shows c operand inner part place before after →
    Shows c e required part place (opening e.precedence required ++ (pre ++ before))
      (after ++ (post ++ closing e.precedence required))

/-! ## What frames hold -/

variable {e operand part : Expr} {required inner place : Nat}
  {pre post before after : List Char} {r : Replacement}

/-- **What is rendered in a row is rendered one by one.** -/
theorem append_cons_of_rendered {α : Type} {one : α → Except RenderError Replacement}
    {all : List α → Except RenderError (List String × NameSet)} (hnil : all [] = .ok ([], .empty))
    (hcons : ∀ a as, all (a :: as) = one a >>= fun r => all as >>= fun rest =>
      pure (r.text :: rest.1, r.imports.union rest.2))
    {before after : List α} {a : α} {out : List String × NameSet}
    (h : all (before ++ a :: after) = .ok out) :
    ∃ front r back, all before = .ok front ∧ one a = .ok r ∧ all after = .ok back ∧
      out.1 = front.1 ++ r.text :: back.1 := by
  induction before generalizing out with
  | nil =>
    rw [List.nil_append, hcons] at h
    obtain ⟨r, ha, h⟩ := bind_eq_ok_iff.1 h
    obtain ⟨rest, hrest, h⟩ := bind_eq_ok_iff.1 h
    obtain rfl := pure_eq_ok_iff.1 h
    exact ⟨([], .empty), r, rest, hnil, ha, hrest, rfl⟩
  | cons first before ih =>
    rw [List.cons_append, hcons] at h
    obtain ⟨r, hfirst, h⟩ := bind_eq_ok_iff.1 h
    obtain ⟨rest, hrest, h⟩ := bind_eq_ok_iff.1 h
    obtain rfl := pure_eq_ok_iff.1 h
    obtain ⟨front, r', back, hbefore, ha, hafter, hout⟩ := ih hrest
    refine ⟨(r.text :: front.1, r.imports.union front.2), r', back, ?_, ha, hafter, ?_⟩
    · rw [hcons, hfirst, hbefore]
      rfl
    · rw [hout, List.cons_append]

theorem renderArgs_append_cons {before after : List Expr} {arg : Expr}
    {out : List String × NameSet} (h : c.renderArgs (before ++ arg :: after) = .ok out) :
    ∃ front r back, c.renderArgs before = .ok front ∧ c.renderExpr arg 0 = .ok r ∧
      c.renderArgs after = .ok back ∧ out.1 = front.1 ++ r.text :: back.1 :=
  @append_cons_of_rendered _ (c.renderExpr · 0) c.renderArgs rfl (fun _ _ => rfl) _ _ _ _ h

/-- **The operand of an expression that has a text has one**, and the text of the
expression is its frame around that. -/
theorem Frame.exists_operand (h : c.Frame e operand inner pre post)
    (hrender : c.renderExpr e required = .ok r) :
    ∃ r', c.renderExpr operand inner = .ok r' ∧
      r.text.toList = opening e.precedence required ++ (pre ++ r'.text.toList ++ post) ++
        closing e.precedence required := by
  cases h with
  | field | methodRef | unary =>
    obtain ⟨r', hoperand, hrender⟩ := bind_eq_ok_iff.1 hrender
    obtain rfl := pure_eq_ok_iff.1 hrender
    refine ⟨r', hoperand, ?_⟩
    rw [toList_parenthesize]
    simp [Expr.precedence]
  | receiver hargs =>
    obtain ⟨r', hoperand, hrender⟩ := bind_eq_ok_iff.1 hrender
    obtain ⟨texts, hargs', hrender⟩ := bind_eq_ok_iff.1 hrender
    obtain rfl := pure_eq_ok_iff.1 hrender
    obtain rfl := Except.ok.inj (hargs.symm.trans hargs')
    refine ⟨r', hoperand, ?_⟩
    rw [toList_parenthesize]
    simp [Expr.precedence]
  | argument hreceiver hfront hback =>
    obtain ⟨target, hreceiver', hrender⟩ := bind_eq_ok_iff.1 hrender
    obtain ⟨texts, hargs, hrender⟩ := bind_eq_ok_iff.1 hrender
    obtain rfl := pure_eq_ok_iff.1 hrender
    obtain rfl := Except.ok.inj (hreceiver.symm.trans hreceiver')
    obtain ⟨front, r', back, hfront', harg, hback', htexts⟩ := renderArgs_append_cons hargs
    obtain rfl := Except.ok.inj (hfront.symm.trans hfront')
    obtain rfl := Except.ok.inj (hback.symm.trans hback')
    refine ⟨r', harg, ?_⟩
    rw [toList_parenthesize, htexts, String.toList_append, String.toList_append,
      toList_intercalate_append_cons]
    simp [Expr.precedence]
  | lhs hrhs =>
    obtain ⟨left, hlhs, hrender⟩ := bind_eq_ok_iff.1 hrender
    obtain ⟨right, hrhs', hrender⟩ := bind_eq_ok_iff.1 hrender
    obtain rfl := pure_eq_ok_iff.1 hrender
    obtain rfl := Except.ok.inj (hrhs.symm.trans hrhs')
    refine ⟨left, hlhs, ?_⟩
    rw [toList_parenthesize]
    simp [Expr.precedence]
  | rhs hlhs =>
    obtain ⟨left, hlhs', hrender⟩ := bind_eq_ok_iff.1 hrender
    obtain ⟨right, hrhs, hrender⟩ := bind_eq_ok_iff.1 hrender
    obtain rfl := pure_eq_ok_iff.1 hrender
    obtain rfl := Except.ok.inj (hlhs.symm.trans hlhs')
    refine ⟨right, hrhs, ?_⟩
    rw [toList_parenthesize]
    simp [Expr.precedence]
  | cast hty =>
    obtain ⟨ty, hty', hrender⟩ := bind_eq_ok_iff.1 hrender
    obtain ⟨r', hoperand, hrender⟩ := bind_eq_ok_iff.1 hrender
    obtain rfl := pure_eq_ok_iff.1 hrender
    obtain rfl := Except.ok.inj (hty.symm.trans hty')
    refine ⟨r', hoperand, ?_⟩
    rw [toList_parenthesize]
    simp [Expr.precedence]

/-- **A part that an expression shows has its text there.** -/
theorem Shows.exists_part (h : c.Shows e required part place before after)
    (hrender : c.renderExpr e required = .ok r) :
    ∃ r', c.renderExpr part place = .ok r' ∧ r.text.toList = before ++ r'.text.toList ++ after := by
  induction h generalizing r with
  | itself => exact ⟨r, hrender, by simp⟩
  | framed hframe _ ih =>
    obtain ⟨operand, hoperand, htext⟩ := hframe.exists_operand hrender
    obtain ⟨r', hpart, hoperandText⟩ := ih hoperand
    refine ⟨r', hpart, ?_⟩
    rw [htext, hoperandText]
    simp only [List.append_assoc]

theorem exists_shows_framed (hframe : c.Frame e operand inner pre post)
    (h : ∃ place before after, c.Shows operand inner part place before after) :
    ∃ place before after, c.Shows e required part place before after := by
  obtain ⟨place, before, after, hshows⟩ := h
  exact ⟨place, _, _, .framed hframe hshows⟩

mutual

/-- **Every part of an expression that has a text is shown in it.** -/
theorem exists_shows {e : Expr} {required : Nat} {r : Replacement}
    (hrender : c.renderExpr e required = .ok r) (hpart : part ∈ e.parts) :
    ∃ place before after, c.Shows e required part place before after := by
  match e with
  | .placeholder _ | .localRef _ | .literal _ | .classRef _ =>
    obtain rfl := List.mem_singleton.1 hpart
    exact ⟨required, _, _, .itself⟩
  | .field receiver _ =>
    rcases List.mem_cons.1 hpart with rfl | hpart
    · exact ⟨required, _, _, .itself⟩
    obtain ⟨target, hreceiver, -⟩ := bind_eq_ok_iff.1 hrender
    exact exists_shows_framed .field (exists_shows hreceiver hpart)
  | .call receiver _ args =>
    rcases List.mem_cons.1 hpart with rfl | hpart
    · exact ⟨required, _, _, .itself⟩
    obtain ⟨target, hreceiver, hrender⟩ := bind_eq_ok_iff.1 hrender
    obtain ⟨texts, hargs, -⟩ := bind_eq_ok_iff.1 hrender
    rcases List.mem_append.1 hpart with hpart | hpart
    · exact exists_shows_framed (.receiver hargs) (exists_shows hreceiver hpart)
    · obtain ⟨before, arg, after, front, back, rfl, hfront, hback, hshows⟩ :=
        exists_shows_of_mem_allParts hargs hpart
      exact exists_shows_framed (.argument hreceiver hfront hback) hshows
  | .methodRef receiver _ =>
    rcases List.mem_cons.1 hpart with rfl | hpart
    · exact ⟨required, _, _, .itself⟩
    obtain ⟨target, hreceiver, -⟩ := bind_eq_ok_iff.1 hrender
    exact exists_shows_framed .methodRef (exists_shows hreceiver hpart)
  | .unary _ operand =>
    rcases List.mem_cons.1 hpart with rfl | hpart
    · exact ⟨required, _, _, .itself⟩
    obtain ⟨text, hoperand, -⟩ := bind_eq_ok_iff.1 hrender
    exact exists_shows_framed .unary (exists_shows hoperand hpart)
  | .binary _ lhs rhs =>
    rcases List.mem_cons.1 hpart with rfl | hpart
    · exact ⟨required, _, _, .itself⟩
    obtain ⟨left, hlhs, hrender⟩ := bind_eq_ok_iff.1 hrender
    obtain ⟨right, hrhs, -⟩ := bind_eq_ok_iff.1 hrender
    rcases List.mem_append.1 hpart with hpart | hpart
    · exact exists_shows_framed (.lhs hrhs) (exists_shows hlhs hpart)
    · exact exists_shows_framed (.rhs hlhs) (exists_shows hrhs hpart)
  | .cast _ operand =>
    rcases List.mem_cons.1 hpart with rfl | hpart
    · exact ⟨required, _, _, .itself⟩
    obtain ⟨ty, hty, hrender⟩ := bind_eq_ok_iff.1 hrender
    obtain ⟨text, hoperand, -⟩ := bind_eq_ok_iff.1 hrender
    exact exists_shows_framed (.cast hty) (exists_shows hoperand hpart)

theorem exists_shows_of_mem_allParts {es : List Expr} {out : List String × NameSet}
    (hrender : c.renderArgs es = .ok out) (hpart : part ∈ Expr.allParts es) :
    ∃ before arg after front back, es = before ++ arg :: after ∧
      c.renderArgs before = .ok front ∧ c.renderArgs after = .ok back ∧
      ∃ place pre post, c.Shows arg 0 part place pre post := by
  match es with
  | [] => exact absurd hpart List.not_mem_nil
  | e :: rest =>
    obtain ⟨r, he, hrender⟩ := bind_eq_ok_iff.1 hrender
    obtain ⟨texts, hrest, -⟩ := bind_eq_ok_iff.1 hrender
    rcases List.mem_append.1 hpart with hpart | hpart
    · exact ⟨[], e, rest, _, texts, rfl, rfl, hrest, exists_shows he hpart⟩
    · obtain ⟨before, arg, after, front, back, rfl, hfront, hback, hshows⟩ :=
        exists_shows_of_mem_allParts hrest hpart
      refine ⟨e :: before, arg, after, (r.text :: front.1, r.imports.union front.2), back, rfl, ?_,
        hback, hshows⟩
      rw [renderArgs, he, hfront]
      rfl

end

/-! ## Frames of statements -/

/-- The text of a statement is the text of its expression between two others. -/
inductive StmtFrame (c : RenderContext) : Stmt → Expr → List Char → List Char → Prop
  | expr {e : Expr} : StmtFrame c (.expr e) e [] [';']
  | ret {e : Expr} : StmtFrame c (.ret (some e)) e "return ".toList [';']
  | init {name : String} {ty : Ty} {e : Expr} {declared : Replacement} :
    c.renderTy ty = .ok declared →
    StmtFrame c (.localVar name ty (some e)) e
      (declared.text ++ " " ++ c.renderLocal name ++ " = ").toList [';']

/-- The text of a body, of which an expression stands at a place that requires a
precedence and statements are put together with a separator, shows the text of a part
between two others. -/
inductive BodyShows (c : RenderContext) (sep : String) (required : Nat) :
    Body → Expr → Nat → List Char → List Char → Prop
  | expr {e part : Expr} {place : Nat} {before after : List Char} :
    c.Shows e required part place before after →
    BodyShows c sep required (.expr e) part place before after
  | stmt {earlier later : List Stmt} {s : Stmt} {e part : Expr} {place : Nat}
    {front back : List String × NameSet} {pre post before after : List Char} :
    c.renderStmts earlier = .ok front → c.renderStmts later = .ok back →
    c.StmtFrame s e pre post → c.Shows e 0 part place before after →
    BodyShows c sep required (.block (earlier ++ s :: later)) part place
      (leading sep front.1 ++ (pre ++ before)) (after ++ (post ++ trailing sep back.1))

/-- A statement that has a text has it around that of its expression. -/
theorem StmtFrame.exists_expr {s : Stmt} (h : c.StmtFrame s e pre post)
    (hrender : c.renderStmt s = .ok r) :
    ∃ r', c.renderExpr e 0 = .ok r' ∧ r.text.toList = pre ++ r'.text.toList ++ post := by
  cases h with
  | expr | ret =>
    obtain ⟨r', he, hrender⟩ := bind_eq_ok_iff.1 hrender
    obtain rfl := pure_eq_ok_iff.1 hrender
    exact ⟨r', he, by simp⟩
  | init hty =>
    obtain ⟨ty, hty', hrender⟩ := bind_eq_ok_iff.1 hrender
    obtain ⟨r', he, hrender⟩ := bind_eq_ok_iff.1 hrender
    obtain rfl := pure_eq_ok_iff.1 hrender
    obtain rfl := Except.ok.inj (hty.symm.trans hty')
    exact ⟨r', he, by simp⟩

theorem exists_stmtFrame {s : Stmt} (hrender : c.renderStmt s = .ok r) (he : e ∈ s.expr?) :
    ∃ pre post, c.StmtFrame s e pre post := by
  cases s with
  | expr e' =>
    obtain rfl := Option.some.inj he
    exact ⟨_, _, .expr⟩
  | ret e' =>
    obtain rfl : e' = some e := he
    exact ⟨_, _, .ret⟩
  | localVar name ty init =>
    obtain rfl : init = some e := he
    obtain ⟨declared, hty, -⟩ := bind_eq_ok_iff.1 hrender
    exact ⟨_, _, .init hty⟩

theorem renderStmts_append_cons {earlier later : List Stmt} {s : Stmt}
    {out : List String × NameSet} (h : c.renderStmts (earlier ++ s :: later) = .ok out) :
    ∃ front r back, c.renderStmts earlier = .ok front ∧ c.renderStmt s = .ok r ∧
      c.renderStmts later = .ok back ∧ out.1 = front.1 ++ r.text :: back.1 :=
  append_cons_of_rendered rfl (fun _ _ => rfl) h

end RenderContext

namespace Template

variable {t : Template} {oracle : TypeOracle} {source rule : String} {b : Bindings} {span : Span}
  {precedence : Nat} {r : Replacement}

/-- The text of the template shows the text of a part between two others. -/
def Shows (t : Template) (oracle : TypeOracle) (source rule : String) (b : Bindings) (span : Span)
    (precedence : Nat) : Expr → Nat → List Char → List Char → Prop :=
  (RenderContext.mk oracle source rule t.name b).BodyShows ("\n" ++ indentAt source span.start)
    precedence t.body

/-- **A part that a template shows has its text there.** -/
theorem Shows.exists_part {part : Expr} {place : Nat} {before after : List Char}
    (h : t.Shows oracle source rule b span precedence part place before after)
    (hrender : t.render oracle source rule b span precedence = .ok r) :
    ∃ r', (RenderContext.mk oracle source rule t.name b).renderExpr part place = .ok r' ∧
      r.text.toList = before ++ r'.text.toList ++ after := by
  unfold Shows at h
  unfold render at hrender
  generalize RenderContext.mk oracle source rule t.name b = c at *
  cases hbody : t.body with
  | expr e =>
    rw [hbody] at h hrender
    cases h with
    | expr h => exact h.exists_part hrender
  | block stmts =>
    rw [hbody] at h hrender
    cases h with
    | stmt hearlier hlater hframe h =>
      obtain ⟨texts, hstmts, hrender⟩ := bind_eq_ok_iff.1 hrender
      obtain rfl := pure_eq_ok_iff.1 hrender
      obtain ⟨front, rs, back, hearlier', hs, hlater', htexts⟩ :=
        RenderContext.renderStmts_append_cons hstmts
      obtain rfl := Except.ok.inj (hearlier.symm.trans hearlier')
      obtain rfl := Except.ok.inj (hlater.symm.trans hlater')
      obtain ⟨re, he, hstmt⟩ := hframe.exists_expr hs
      obtain ⟨r', hpart, hexpr⟩ := h.exists_part he
      refine ⟨r', hpart, ?_⟩
      dsimp only
      rw [htexts, toList_intercalate_append_cons, hstmt, hexpr]
      simp only [List.append_assoc]

/-- **Every part of a template that has a text is shown in it.** -/
theorem exists_shows_of_mem_parts {e part : Expr} (he : e ∈ t.body.exprs) (hpart : part ∈ e.parts)
    (hrender : t.render oracle source rule b span precedence = .ok r) :
    ∃ place before after, t.Shows oracle source rule b span precedence part place before after := by
  unfold Shows
  unfold render at hrender
  generalize RenderContext.mk oracle source rule t.name b = c at *
  cases hbody : t.body with
  | expr e' =>
    rw [hbody] at he hrender
    obtain rfl := List.mem_singleton.1 he
    obtain ⟨place, before, after, h⟩ := RenderContext.exists_shows hrender hpart
    exact ⟨place, before, after, .expr h⟩
  | block stmts =>
    rw [hbody] at he hrender
    obtain ⟨s, hmem, hexpr⟩ := List.mem_filterMap.1 he
    obtain ⟨earlier, later, rfl⟩ := List.append_of_mem hmem
    obtain ⟨texts, hstmts, -⟩ := bind_eq_ok_iff.1 hrender
    obtain ⟨front, rs, back, hearlier, hs, hlater, -⟩ :=
      RenderContext.renderStmts_append_cons hstmts
    obtain ⟨pre, post, hframe⟩ := RenderContext.exists_stmtFrame hs hexpr
    obtain ⟨re, hrendered, -⟩ := hframe.exists_expr hs
    obtain ⟨place, before, after, h⟩ := RenderContext.exists_shows hrendered hpart
    exact ⟨place, _, _, .stmt hearlier hlater hframe h⟩

end Template

end Codemod
