import Codemod.Proofs.Template.Frames
import Codemod.Proofs.Tree.Literal
import Codemod.Tree.Fresh
import Codemod.Types.Hierarchy
/-!
# What follows a minus sign

Behind the text of a part no minus sign follows without a space
(`RenderContext.BodyShows.not_beginsWithMinus`). So a minus sign that a negation writes
stands directly before another one exactly if the text of its operand begins with one.

Parentheses go by precedences only, and an operand that is a negation, a negative
literal, or bound to an expression that begins with a minus sign and binds tightly has
none (`RenderContext.LeadsWithMinus`): the two signs then read as a decrement
(`Template.negation_precedes_minus_iff`).
-/

namespace Codemod

open Outcome Rendering Template

/-! ## Texts that begin with a minus sign -/

/-- The text begins with a minus sign. -/
def BeginsWithMinus (text : List Char) : Prop := '-' ∈ text.head?

instance (text : List Char) : Decidable (BeginsWithMinus text) :=
  inferInstanceAs (Decidable (_ ∈ _))

namespace BeginsWithMinus

variable {text rest : List Char} {c : Char}

theorem cons_iff : BeginsWithMinus (c :: rest) ↔ c = '-' := by
  simp [BeginsWithMinus]

theorem not_nil : ¬ BeginsWithMinus [] := by
  simp [BeginsWithMinus]

/-- What stands behind a text matters only if the text is empty. -/
theorem append_iff (h : ¬ BeginsWithMinus rest) :
    BeginsWithMinus (text ++ rest) ↔ BeginsWithMinus text := by
  cases text with
  | nil => exact iff_of_false h not_nil
  | cons first text => rw [List.cons_append, cons_iff, cons_iff]

theorem not_append (h : ¬ BeginsWithMinus text) (h' : ¬ BeginsWithMinus rest) :
    ¬ BeginsWithMinus (text ++ rest) :=
  mt (append_iff h').1 h

theorem append_cons_iff (h : c ≠ '-') :
    BeginsWithMinus (text ++ c :: rest) ↔ BeginsWithMinus text :=
  append_iff (mt cons_iff.1 h)

end BeginsWithMinus

/-- A number below zero, or a floating point zero with a sign. -/
def Literal.IsNegative : Literal → Prop
  | .int n => n < 0
  | .float x => x.isNegative = true ∧ x.isNaN = false
  | _ => False

/-- Digits and points are no minus signs. -/
theorem BeginsWithMinus.not_digits {text : List Char}
    (h : ∀ c ∈ text, c.isDigit = true ∨ c = '.') : ¬ BeginsWithMinus text := by
  cases text with
  | nil => exact not_nil
  | cons c text =>
    rw [cons_iff]
    rintro rfl
    exact absurd (h '-' List.mem_cons_self) (by decide)

/-- **The negative literals are written with a minus sign before them**, and no
others. -/
theorem Literal.beginsWithMinus_toSource_iff {l : Literal} :
    BeginsWithMinus l.toSource.toList ↔ l.IsNegative := by
  cases l with
  | int n =>
    rw [toSource, Int.toString_eq_repr, Int.repr_eq_if, IsNegative]
    split
    · rename_i hpos
      have hdigits : ¬ BeginsWithMinus n.toNat.repr.toList := by
        rw [Nat.repr_eq_ofList_toDigits, String.toList_ofList]
        exact BeginsWithMinus.not_digits fun c hc =>
          .inl (Nat.isDigit_of_mem_toDigits (by decide) (by decide) hc)
      exact iff_of_false hdigits (by omega)
    · rw [String.toList_append]
      exact iff_of_true (BeginsWithMinus.cons_iff.2 rfl) (by omega)
  | float x =>
    rw [toSource, floatSource, IsNegative]
    have hsign (text : String) (h : ¬ BeginsWithMinus text.toList) :
        BeginsWithMinus ((if x.isNegative then "-" else "") ++ text).toList ↔
          x.isNegative = true := by
      cases x.isNegative with
      | true => simp [BeginsWithMinus]
      | false => simpa using h
    dsimp only
    split
    · rename_i hnan
      exact iff_of_false (by decide) (by simp [hnan])
    · rename_i hnan
      rw [and_iff_left (by simpa using hnan)]
      split
      · exact hsign _ (by decide)
      split
      · exact hsign _ (by decide)
      · rw [String.append_assoc]
        refine hsign _ ?_
        rw [String.toList_append]
        refine BeginsWithMinus.not_append ?_ (by split <;> decide)
        exact BeginsWithMinus.not_digits fun c => Comment.isDigit_or_eq_of_mem_positional
  | bool b => exact iff_of_false (by cases b <;> decide) id
  | char c => exact iff_of_false (by simp [toSource, BeginsWithMinus, Text.quoted]) id
  | str s => exact iff_of_false (by simp [toSource, BeginsWithMinus, Text.quoted]) id
  | null => exact iff_of_false (by decide) id

/-! ## What stands behind a part -/

namespace Rendering

theorem not_beginsWithMinus_closing (precedence required : Nat) :
    ¬ BeginsWithMinus (closing precedence required) := by
  unfold closing
  split <;> decide

/-- What is put in parentheses does not begin with a minus sign. -/
theorem beginsWithMinus_parenthesize_iff {precedence required : Nat} {text : String} :
    BeginsWithMinus (parenthesize precedence required text).toList ↔
      required ≤ precedence ∧ BeginsWithMinus text.toList := by
  unfold parenthesize
  split
  · refine iff_of_false ?_ fun h => ?_
    · simp [BeginsWithMinus]
    · omega
  · rw [and_iff_right (by omega)]

end Rendering

namespace RenderContext

variable {c : RenderContext} {e operand part : Expr} {required inner place : Nat}
  {pre post before after : List Char}

/-- What stands behind an operand does not begin with a minus sign. -/
theorem Frame.not_beginsWithMinus (h : c.Frame e operand inner pre post) :
    ¬ BeginsWithMinus post := by
  cases h with
  | unary | rhs _ | cast _ => exact BeginsWithMinus.not_nil
  | @argument _ _ _ _ _ _ _ back =>
    cases hback : back.1 with
    | nil => decide
    | cons text texts => simp [trailing, BeginsWithMinus]
  | field | receiver _ | methodRef | lhs _ => simp [BeginsWithMinus, Layout.infixOp]

/-- **What stands behind a part** does not begin with a minus sign. -/
theorem Shows.not_beginsWithMinus (h : c.Shows e required part place before after) :
    ¬ BeginsWithMinus after := by
  induction h with
  | itself => exact BeginsWithMinus.not_nil
  | framed hframe _ ih =>
    refine BeginsWithMinus.not_append ih ?_
    exact BeginsWithMinus.not_append hframe.not_beginsWithMinus (not_beginsWithMinus_closing _ _)

/-- What stands behind a part in the text of a body does not begin with a minus sign. -/
theorem BodyShows.not_beginsWithMinus
    {body : Body} {sep : String}
    (h : c.BodyShows sep required body part place before after) : ¬ BeginsWithMinus after := by
  cases h with
  | expr h => exact h.not_beginsWithMinus
  | stmt _ _ hframe h =>
    refine BeginsWithMinus.not_append h.not_beginsWithMinus ?_
    cases hframe <;> simp [BeginsWithMinus]

/-! ## Which texts begin with a minus sign -/

/-- The expression begins with a minus sign at a place that requires a precedence: it
needs no parentheses there, and is a negation, a negative literal, a name or a bound
expression whose text begins so, or has an operand in front that does. -/
def LeadsWithMinus (c : RenderContext) : Expr → Nat → Prop
  | .placeholder name, required => ∃ bound, c.bindings.get? name = some bound ∧
      required ≤ bound.node.precedence ∧ BeginsWithMinus (sourceOf c.source bound.node).toList
  | .localRef name, required =>
    required ≤ Precedence.primary ∧ BeginsWithMinus (c.renderLocal name).toList
  | .literal value, required => required ≤ Precedence.primary ∧ value.IsNegative
  | .classRef name, required =>
    required ≤ Precedence.primary ∧ BeginsWithMinus (Name.simple name).toList
  | .field receiver _, required | .call receiver _ _, required | .methodRef receiver _, required =>
    required ≤ Precedence.primary ∧ LeadsWithMinus c receiver Precedence.primary
  | .unary op _, required => required ≤ Precedence.unary ∧ op = .neg
  | .binary op lhs _, required => required ≤ op.precedence ∧ LeadsWithMinus c lhs op.precedence
  | .cast .., _ => False

/-- **The text of an expression begins with a minus sign** exactly if the expression
does. -/
theorem beginsWithMinus_iff_leadsWithMinus {e : Expr} {required : Nat} {r : Replacement}
    (hrender : c.renderExpr e required = .ok r) :
    BeginsWithMinus r.text.toList ↔ c.LeadsWithMinus e required := by
  cases e with
  | placeholder name =>
    rw [renderExpr] at hrender
    cases hbound : c.bindings.get? name with
    | none => exact absurd hrender (by simp [hbound])
    | some bound =>
      rw [hbound] at hrender
      obtain rfl := Except.ok.inj hrender
      simp [beginsWithMinus_parenthesize_iff, LeadsWithMinus, hbound]
  | localRef name =>
    obtain rfl := Except.ok.inj hrender
    rw [beginsWithMinus_parenthesize_iff, LeadsWithMinus]
  | literal value =>
    obtain rfl := Except.ok.inj hrender
    rw [beginsWithMinus_parenthesize_iff, Literal.beginsWithMinus_toSource_iff, LeadsWithMinus]
  | classRef name =>
    obtain ⟨imports, -, hrender⟩ := bind_eq_ok_iff.1 hrender
    obtain rfl := pure_eq_ok_iff.1 hrender
    rw [beginsWithMinus_parenthesize_iff, LeadsWithMinus]
  | field receiver name =>
    obtain ⟨target, hreceiver, hrender⟩ := bind_eq_ok_iff.1 hrender
    obtain rfl := pure_eq_ok_iff.1 hrender
    have htext : (target.text ++ "." ++ name).toList =
        target.text.toList ++ '.' :: name.toList := by
      simp
    rw [beginsWithMinus_parenthesize_iff, htext, BeginsWithMinus.append_cons_iff (by decide),
      beginsWithMinus_iff_leadsWithMinus hreceiver, LeadsWithMinus]
  | call receiver method args =>
    obtain ⟨target, hreceiver, hrender⟩ := bind_eq_ok_iff.1 hrender
    obtain ⟨texts, -, hrender⟩ := bind_eq_ok_iff.1 hrender
    obtain rfl := pure_eq_ok_iff.1 hrender
    have htext : (target.text ++ "." ++ method.name ++ "(" ++ ", ".intercalate texts.1 ++
        ")").toList = target.text.toList ++
          '.' :: (method.name ++ "(" ++ ", ".intercalate texts.1 ++ ")").toList := by
      simp
    rw [beginsWithMinus_parenthesize_iff, htext, BeginsWithMinus.append_cons_iff (by decide),
      beginsWithMinus_iff_leadsWithMinus hreceiver, LeadsWithMinus]
  | methodRef receiver method =>
    obtain ⟨target, hreceiver, hrender⟩ := bind_eq_ok_iff.1 hrender
    obtain rfl := pure_eq_ok_iff.1 hrender
    have htext : (target.text ++ "::" ++ method.name).toList =
        target.text.toList ++ ':' :: (":" ++ method.name).toList := by
      simp
    rw [beginsWithMinus_parenthesize_iff, htext, BeginsWithMinus.append_cons_iff (by decide),
      beginsWithMinus_iff_leadsWithMinus hreceiver, LeadsWithMinus]
  | unary op operand =>
    obtain ⟨text, -, hrender⟩ := bind_eq_ok_iff.1 hrender
    obtain rfl := pure_eq_ok_iff.1 hrender
    rw [beginsWithMinus_parenthesize_iff, LeadsWithMinus]
    cases op <;> simp [UnaryOp.symbol, BeginsWithMinus]
  | binary op lhs rhs =>
    obtain ⟨left, hlhs, hrender⟩ := bind_eq_ok_iff.1 hrender
    obtain ⟨right, -, hrender⟩ := bind_eq_ok_iff.1 hrender
    obtain rfl := pure_eq_ok_iff.1 hrender
    have htext : (left.text ++ Layout.infixOp op ++ right.text).toList =
        left.text.toList ++ ' ' :: (op.symbol ++ " " ++ right.text).toList := by
      simp [Layout.infixOp]
    rw [beginsWithMinus_parenthesize_iff, htext, BeginsWithMinus.append_cons_iff (by decide),
      beginsWithMinus_iff_leadsWithMinus hlhs, LeadsWithMinus]
  | cast target operand =>
    obtain ⟨ty, -, hrender⟩ := bind_eq_ok_iff.1 hrender
    obtain ⟨text, -, hrender⟩ := bind_eq_ok_iff.1 hrender
    obtain rfl := pure_eq_ok_iff.1 hrender
    rw [beginsWithMinus_parenthesize_iff, LeadsWithMinus]
    simp [BeginsWithMinus]

end RenderContext

/-! ## Negations of a template -/

namespace Template

variable {t : Template} {oracle : TypeOracle} {source rule : String} {b : Bindings} {span : Span}
  {precedence : Nat} {r : Replacement}

/-- The minus sign of a negation with the operand stands in the text of the template
between the two texts. -/
inductive NegationAt (t : Template) (oracle : TypeOracle) (source rule : String) (b : Bindings)
    (span : Span) (precedence : Nat) (operand : Expr) : List Char → List Char → Prop
  | mk {place : Nat} {before after : List Char} {r : Replacement} :
    t.Shows oracle source rule b span precedence (.unary .neg operand) place before after →
    (RenderContext.mk oracle source rule t.name b).renderExpr operand Precedence.unary = .ok r →
    NegationAt t oracle source rule b span precedence operand
      (before ++ opening Precedence.unary place)
      (r.text.toList ++ (closing Precedence.unary place ++ after))

/-- **When the minus sign of a negation precedes another.** Every negation of a
template that has a text writes its minus sign in it, and behind it stands a minus
sign exactly if the operand begins with one. -/
theorem negation_precedes_minus_iff
    (hrender : t.render oracle source rule b span precedence = .ok r) :
    (∀ e ∈ t.body.exprs, ∀ operand, .unary .neg operand ∈ e.parts → ∃ before after,
      t.NegationAt oracle source rule b span precedence operand before after) ∧
    ∀ operand before after,
      t.NegationAt oracle source rule b span precedence operand before after →
        r.text.toList = before ++ '-' :: after ∧
        (BeginsWithMinus after ↔
          (RenderContext.mk oracle source rule t.name b).LeadsWithMinus operand
            Precedence.unary) := by
  refine ⟨fun e he operand hpart => ?_, fun operand before after hat => ?_⟩
  · obtain ⟨place, before, after, h⟩ := exists_shows_of_mem_parts he hpart hrender
    obtain ⟨r', hpart, -⟩ := h.exists_part hrender
    obtain ⟨text, hoperand, -⟩ := bind_eq_ok_iff.1 hpart
    exact ⟨_, _, .mk h hoperand⟩
  · cases hat with
    | @mk place before after text h hoperand =>
      obtain ⟨r', hpart, htext⟩ := h.exists_part hrender
      obtain ⟨text', hoperand', hpart⟩ := bind_eq_ok_iff.1 hpart
      obtain rfl := Except.ok.inj (hoperand.symm.trans hoperand')
      obtain rfl := pure_eq_ok_iff.1 hpart
      refine ⟨?_, ?_⟩
      · rw [htext, toList_parenthesize]
        simp [UnaryOp.symbol]
      · have hbehind := BeginsWithMinus.not_append
          (not_beginsWithMinus_closing Precedence.unary place) h.not_beginsWithMinus
        rw [BeginsWithMinus.append_iff hbehind,
          RenderContext.beginsWithMinus_iff_leadsWithMinus hoperand]

/-! ## Numbers that are negated twice -/

/-- The expression `-a - -b`. -/
def opposites : Template where
  name := "opposites"
  typeParams := []
  params := [⟨"a", .plain "int", none⟩, ⟨"b", .plain "int", none⟩]
  returnType := .plain "int"
  body := .expr (.binary .sub (.unary .neg (.placeholder "a")) (.unary .neg (.placeholder "b")))

/-- The first number is `x` and the second `-5`. -/
def oppositesBindings : Bindings :=
  (Bindings.empty.bindExpr "a" ⟨Fresh.ident "x", .plain "int"⟩).bindExpr "b"
    ⟨Fresh.literal (.int (-5)), .plain "int"⟩

/-- The minus sign before `x` is kept apart from others, and the one before `-5`
reads as a decrement. -/
theorem negation_precedes_minus_opposites :
    ∃ r, opposites.render Hierarchy.javaLang.oracle "" "com.example.Opposites" oppositesBindings
        ⟨0, 0⟩ 0 = .ok r ∧ r.text = "-x - --5" ∧
      (∃ before after, opposites.NegationAt Hierarchy.javaLang.oracle "" "com.example.Opposites"
        oppositesBindings ⟨0, 0⟩ 0 (.placeholder "a") before after ∧ ¬ BeginsWithMinus after) ∧
      ∃ before after, opposites.NegationAt Hierarchy.javaLang.oracle "" "com.example.Opposites"
        oppositesBindings ⟨0, 0⟩ 0 (.placeholder "b") before after ∧
        r.text.toList = before ++ '-' :: after ∧ BeginsWithMinus after := by
  have hrender : opposites.render Hierarchy.javaLang.oracle "" "com.example.Opposites"
      oppositesBindings ⟨0, 0⟩ 0 = .ok ⟨"-x - --5", .empty⟩ := by
    rfl
  have hfirst : oppositesBindings.get? "a" = some ⟨Fresh.ident "x", .plain "int"⟩ := rfl
  have hsecond : oppositesBindings.get? "b" = some ⟨Fresh.literal (.int (-5)), .plain "int"⟩ := rfl
  obtain ⟨hexists, hall⟩ := negation_precedes_minus_iff hrender
  obtain ⟨before, after, hx⟩ := hexists _ (List.mem_singleton_self _) (.placeholder "a")
    (List.mem_cons_of_mem _ List.mem_cons_self)
  obtain ⟨before', after', hfive⟩ := hexists _ (List.mem_singleton_self _) (.placeholder "b")
    (List.mem_cons_of_mem _ (List.mem_append_right _ List.mem_cons_self))
  refine ⟨_, hrender, rfl, ⟨before, after, hx, ?_⟩, before', after', hfive,
    (hall _ _ _ hfive).1, ?_⟩
  · rw [(hall _ _ _ hx).2]
    rintro ⟨bound, hbound, -, htext⟩
    obtain rfl := Option.some.inj (hfirst.symm.trans hbound)
    exact absurd htext (by decide +kernel)
  · rw [(hall _ _ _ hfive).2]
    exact ⟨_, hsecond, by decide, by decide +kernel⟩

/-- The expression `-(-a)`. -/
def negatedTwice : Template where
  name := "negatedTwice"
  typeParams := []
  params := [⟨"a", .plain "int", none⟩]
  returnType := .plain "int"
  body := .expr (.unary .neg (.unary .neg (.placeholder "a")))

/-- A number `x` that is negated twice is written as if it were decremented. -/
theorem exists_negation_precedes_minus :
    ∃ b r after, negatedTwice.render Hierarchy.javaLang.oracle "" "com.example.Negation" b
        ⟨0, 0⟩ 0 = .ok r ∧ r.text = "--x" ∧
      negatedTwice.NegationAt Hierarchy.javaLang.oracle "" "com.example.Negation" b ⟨0, 0⟩ 0
        (.unary .neg (.placeholder "a")) [] after ∧
      r.text.toList = '-' :: after ∧ BeginsWithMinus after := by
  refine ⟨Bindings.empty.bindExpr "a" ⟨Fresh.ident "x", .plain "int"⟩, ⟨"--x", .empty⟩, "-x".toList,
    rfl, rfl, ?_, rfl, by decide⟩
  exact @NegationAt.mk negatedTwice Hierarchy.javaLang.oracle "" "com.example.Negation" _ _ _ _ 0 []
    [] ⟨"-x", .empty⟩ (.expr .itself) rfl

end Template

end Codemod
