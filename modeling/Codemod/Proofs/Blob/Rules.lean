import Codemod.Blob.Artifact
import Codemod.Proofs.Blob.Wire
/-!
# What is read of rules

Every form of a rule is read by its decoder (`Blob.Reads`), from literals up to
migration pairs. Types and expressions nest, and their decoders go no deeper
than there are bytes left; since every level takes up bytes of its own, that is
always deep enough (`Reads.of_within`).

What fits is said form by form: texts and lists that can be counted and whole
numbers of 64 bits. All else fits as it is.
-/

namespace Codemod.Blob

/-- What is read by a decoder that goes deep enough is read by the one that
goes as deep as there are bytes, if every level takes up some. -/
theorem Reads.of_within {α : Type} {within : Nat → Decoder α} {enc : α → Bytes} {fits : α → Prop}
    {depthOf : α → Nat}
    (h : ∀ depth, Reads (within depth) enc fun a => fits a ∧ depthOf a ≤ depth)
    (hdepth : ∀ a, depthOf a ≤ (enc a).length) :
    Reads (do within ((← Decode.rest).length + 1)) enc fits := by
  intro bytes a rest
  show within (bytes.length + 1) bytes = _ ↔ _
  rw [h]
  constructor
  · rintro ⟨hbytes, hfits, -⟩
    exact ⟨hbytes, hfits⟩
  · rintro ⟨rfl, hfits⟩
    have := hdepth a
    exact ⟨rfl, hfits, by rw [List.length_append]; omega⟩

/-! ## Types -/

mutual

/-- The texts and lists in the type can be counted. -/
def TyFits : Ty → Prop
  | .named name args => TextFits name ∧ args.length < twoPow 64 ∧ TysFit args
  | .var name upper lower => TextFits name ∧ BoundFits upper ∧ BoundFits lower

/-- Those in each of the types can be counted. -/
def TysFit : List Ty → Prop
  | [] => True
  | ty :: rest => TyFits ty ∧ TysFit rest

/-- Those in a bound can be counted. -/
def BoundFits : Option Ty → Prop
  | none => True
  | some ty => TyFits ty

end

/-- The name and the bounds of a variable can be written. -/
def TypeVarFits (v : TypeVar) : Prop := TyFits v.toTy

mutual

instance decidableTyFits : DecidablePred TyFits
  | .named name args =>
    have := decidableTysFit args
    inferInstanceAs (Decidable (TextFits name ∧ args.length < twoPow 64 ∧ TysFit args))
  | .var name upper lower =>
    have := decidableBoundFits upper
    have := decidableBoundFits lower
    inferInstanceAs (Decidable (TextFits name ∧ BoundFits upper ∧ BoundFits lower))

instance decidableTysFit : DecidablePred TysFit
  | [] => inferInstanceAs (Decidable True)
  | ty :: rest =>
    have := decidableTyFits ty
    have := decidableTysFit rest
    inferInstanceAs (Decidable (TyFits ty ∧ TysFit rest))

instance decidableBoundFits : DecidablePred BoundFits
  | none => inferInstanceAs (Decidable True)
  | some ty => decidableTyFits ty

end

instance : DecidablePred TypeVarFits := fun v => inferInstanceAs (Decidable (TyFits v.toTy))

mutual

/-- How many decoders are at work at once when the type is read. -/
def tyDepth : Ty → Nat
  | .named _ args => tysDepth args + 1
  | .var _ upper lower => max (boundDepth upper) (boundDepth lower) + 2

/-- How many decoders are at work at once when one of the types is read. -/
def tysDepth : List Ty → Nat
  | [] => 0
  | ty :: rest => max (tyDepth ty) (tysDepth rest)

/-- How many decoders are at work at once when a bound is read. -/
def boundDepth : Option Ty → Nat
  | none => 0
  | some ty => tyDepth ty

end

/-- How many decoders are at work at once when a variable is read. -/
def typeVarDepth (v : TypeVar) : Nat := max (boundDepth v.upper) (boundDepth v.lower) + 1

theorem tys_within_iff {tys : List Ty} {depth : Nat} :
    (∀ ty ∈ tys, TyFits ty ∧ tyDepth ty ≤ depth) ↔ TysFit tys ∧ tysDepth tys ≤ depth := by
  induction tys with
  | nil => simp [TysFit, tysDepth]
  | cons ty rest ih =>
    rw [List.forall_mem_cons, ih, TysFit, tysDepth, Nat.max_le, and_and_and_comm]

theorem bound_within_iff {bound : Option Ty} {depth : Nat} :
    (∀ ty ∈ bound, TyFits ty ∧ tyDepth ty ≤ depth) ↔
      BoundFits bound ∧ boundDepth bound ≤ depth := by
  cases bound <;> simp [BoundFits, boundDepth]

theorem tys_eq_flatMap (tys : List Ty) : Encode.tys tys = tys.flatMap Encode.ty := by
  induction tys with
  | nil => rfl
  | cons ty rest ih => rw [Encode.tys, List.flatMap_cons, ih]

theorem bound_eq_option (bound : Option Ty) :
    Encode.bound bound = Encode.option Encode.ty bound := by
  cases bound <;> rfl

theorem ty_named (name : String) (args : List Ty) :
    Encode.ty (.named name args) =
      Encode.tag 0 ++ (Encode.text name ++ Encode.list Encode.ty args) := by
  simp only [Encode.ty, Encode.list, tys_eq_flatMap, List.append_assoc]

theorem ty_var (name : String) (upper lower : Option Ty) :
    Encode.ty (.var name upper lower) = Encode.tag 1 ++ Encode.typeVar ⟨name, upper, lower⟩ := by
  simp only [Encode.ty, Encode.typeVar, List.append_assoc]

mutual

/-- Every level of a type takes up bytes. -/
theorem tyDepth_le_length (ty : Ty) : tyDepth ty ≤ (Encode.ty ty).length := by
  match ty with
  | .named name args =>
    have := tysDepth_le_length args
    simp only [tyDepth, Encode.ty, Encode.tag, List.length_append, length_fixed]
    omega
  | .var name upper lower =>
    have := boundDepth_le_length upper
    have := boundDepth_le_length lower
    simp only [tyDepth, Encode.ty, Encode.tag, List.length_append, length_fixed]
    omega

theorem tysDepth_le_length (tys : List Ty) : tysDepth tys ≤ (Encode.tys tys).length := by
  match tys with
  | [] => exact Nat.zero_le _
  | ty :: rest =>
    have := tyDepth_le_length ty
    have := tysDepth_le_length rest
    simp only [tysDepth, Encode.tys, List.length_append]
    omega

theorem boundDepth_le_length (bound : Option Ty) :
    boundDepth bound ≤ (Encode.bound bound).length := by
  match bound with
  | none => exact Nat.zero_le _
  | some ty =>
    have := tyDepth_le_length ty
    simp only [boundDepth, Encode.bound, List.length_cons]
    omega

end

theorem typeVarDepth_le_length (v : TypeVar) : typeVarDepth v ≤ (Encode.typeVar v).length := by
  have := boundDepth_le_length v.upper
  have := boundDepth_le_length v.lower
  simp only [typeVarDepth, Encode.typeVar, Encode.text, Encode.length, List.length_append,
    length_fixed]
  omega

/-- Types and variables are read as deep as their decoders go. -/
theorem reads_within (depth : Nat) :
    Reads (Decode.tyWithin depth) Encode.ty (fun ty => TyFits ty ∧ tyDepth ty ≤ depth) ∧
      Reads (Decode.typeVarWithin depth) Encode.typeVar
        (fun v => TypeVarFits v ∧ typeVarDepth v ≤ depth) := by
  induction depth with
  | zero =>
    refine ⟨fun bytes ty rest => ⟨nofun, ?_⟩, fun bytes v rest => ⟨nofun, ?_⟩⟩
    · rintro ⟨-, -, hdepth⟩
      cases ty <;> simp [tyDepth] at hdepth
    · rintro ⟨-, -, hdepth⟩
      simp [typeVarDepth] at hdepth
  | succ depth ih =>
    obtain ⟨hty, hvar⟩ := ih
    refine ⟨fun bytes ty rest => ?_, fun bytes v rest => ?_⟩
    · rw [Decode.tyWithin]
      constructor
      · rw [reads_tag.bind_iff]
        rintro ⟨n, -, mid, rfl, h⟩
        rcases n with _ | _ | n
        · simp only [reads_text.bind_iff, hty.list.bind_iff, pure_eq_ok_iff] at h
          obtain ⟨name, hname, _, rfl, args, ⟨hcounted, hargs⟩, _, rfl, rfl, rfl⟩ := h
          obtain ⟨hargs, hdepth⟩ := tys_within_iff.1 hargs
          exact ⟨by simp [ty_named], ⟨hname, hcounted, hargs⟩, Nat.succ_le_succ hdepth⟩
        · simp only [Nat.zero_add, hvar.bind_iff, pure_eq_ok_iff] at h
          obtain ⟨v, ⟨hv, hdepth⟩, _, rfl, rfl, rfl⟩ := h
          exact ⟨by simp [TypeVar.toTy, ty_var], hv, Nat.succ_le_succ hdepth⟩
        · exact absurd h throw_ne_ok
      · rintro ⟨rfl, hfits, hdepth⟩
        cases ty with
        | named name args =>
          obtain ⟨hname, hcounted, hargs⟩ := hfits
          have hargs := ListFits.mk hcounted
            (tys_within_iff.2 ⟨hargs, Nat.le_of_succ_le_succ hdepth⟩)
          simp (disch := first | decide | assumption) only [ty_named, List.append_assoc,
            reads_tag.bind_append, reads_text.bind_append, hty.list.bind_append]
          rfl
        | var name upper lower =>
          have hv : TypeVarFits ⟨name, upper, lower⟩ ∧ typeVarDepth ⟨name, upper, lower⟩ ≤ depth :=
            ⟨hfits, Nat.le_of_succ_le_succ hdepth⟩
          simp (disch := first | decide | assumption) only [ty_var, List.append_assoc,
            reads_tag.bind_append, hvar.bind_append]
          rfl
    · rw [Decode.typeVarWithin]
      constructor
      · simp only [reads_text.bind_iff, hty.option.bind_iff, bound_within_iff, pure_eq_ok_iff]
        rintro ⟨name, hname, _, rfl, upper, hupper, _, rfl, lower, hlower, _, rfl, rfl, rfl⟩
        exact ⟨by simp [Encode.typeVar, bound_eq_option], ⟨hname, hupper.1, hlower.1⟩,
          Nat.succ_le_succ (Nat.max_le.2 ⟨hupper.2, hlower.2⟩)⟩
      · rintro ⟨rfl, ⟨hname, hupper, hlower⟩, hdepth⟩
        obtain ⟨hu, hl⟩ := Nat.max_le.1 (Nat.le_of_succ_le_succ hdepth)
        have hupper := bound_within_iff.2 ⟨hupper, hu⟩
        have hlower := bound_within_iff.2 ⟨hlower, hl⟩
        simp (disch := assumption) only [Encode.typeVar, bound_eq_option, List.append_assoc,
          reads_text.bind_append, hty.option.bind_append]
        rfl

/-- **Types are read.** -/
theorem reads_ty : Reads Decode.ty Encode.ty TyFits :=
  .of_within (fun depth => (reads_within depth).1) tyDepth_le_length

theorem reads_typeVar : Reads Decode.typeVar Encode.typeVar TypeVarFits :=
  .of_within (fun depth => (reads_within depth).2) typeVarDepth_le_length

/-! ## Expressions -/

/-- A whole number has no more than sixty-four bits, and a text can be counted. -/
def LiteralFits : Literal → Prop
  | .int n => IntFits n
  | .str s => TextFits s
  | .float _ | .bool _ | .char _ | .null => True

instance : DecidablePred LiteralFits
  | .int n => inferInstanceAs (Decidable (IntFits n))
  | .str s => inferInstanceAs (Decidable (TextFits s))
  | .float _ | .bool _ | .char _ | .null => inferInstanceAs (Decidable True)

theorem reads_literal : Reads Decode.literal Encode.literal LiteralFits := by
  intro bytes value rest
  rw [Decode.literal]
  constructor
  · rw [reads_tag.bind_iff]
    rintro ⟨n, -, mid, rfl, h⟩
    rcases n with _ | _ | _ | _ | _ | _ | n <;>
      simp only [Nat.zero_add, Nat.reduceAdd, reads_int.bind_iff, reads_double.bind_iff,
        reads_bool.bind_iff, reads_char.bind_iff, reads_text.bind_iff, pure_eq_ok_iff] at h
    case succ.succ.succ.succ.succ.succ => exact absurd h throw_ne_ok
    case succ.succ.succ.succ.succ.zero =>
      obtain ⟨rfl, rfl⟩ := h
      exact ⟨rfl, trivial⟩
    all_goals
      obtain ⟨value, hfits, _, rfl, rfl, rfl⟩ := h
      exact ⟨(List.append_assoc _ _ _).symm, hfits⟩
  · rintro ⟨rfl, hfits⟩
    cases value <;> simp only [LiteralFits] at hfits <;>
      simp (disch := first | decide | assumption) only [Encode.literal, List.append_assoc,
        reads_tag.bind_append, reads_int.bind_append, reads_double.bind_append,
        reads_bool.bind_append, reads_char.bind_append, reads_text.bind_append] <;>
      rfl

/-- The texts that name a method can be counted. -/
@[mk_iff]
structure MethodKeyFits (m : Template.MethodKey) : Prop where
  owner : TextFits m.owner
  name : TextFits m.name

instance : DecidablePred MethodKeyFits := fun x => decidable_of_iff' _ (methodKeyFits_iff x)

theorem reads_methodKey : Reads Decode.methodKey Encode.methodKey MethodKeyFits := by
  intro bytes m rest
  rw [Decode.methodKey]
  constructor
  · simp only [reads_text.bind_iff, reads_bool.bind_iff, pure_eq_ok_iff]
    rintro ⟨owner, howner, _, rfl, name, hname, _, rfl, isStatic, -, _, rfl, rfl, rfl⟩
    exact ⟨by simp [Encode.methodKey], howner, hname⟩
  · rintro ⟨rfl, howner, hname⟩
    simp (disch := first | assumption | trivial) only [Encode.methodKey, List.append_assoc,
      reads_text.bind_append, reads_bool.bind_append]
    rfl

theorem reads_unaryOp : Reads (Decode.oneOf unaryOps) (Encode.oneOf unaryOps) fun _ => True :=
  (reads_oneOf (by decide) (by decide)).congr (fun _ => rfl) (by rintro ⟨⟩ <;> decide)

theorem reads_binaryOp : Reads (Decode.oneOf binaryOps) (Encode.oneOf binaryOps) fun _ => True :=
  (reads_oneOf (by decide) (by decide)).congr (fun _ => rfl) (by rintro ⟨⟩ <;> decide)

mutual

/-- The texts and lists in the expression can be counted, and its numbers written. -/
def ExprFits : Template.Expr → Prop
  | .placeholder name | .localRef name | .classRef name => TextFits name
  | .literal value => LiteralFits value
  | .field receiver name => ExprFits receiver ∧ TextFits name
  | .call receiver method args =>
    ExprFits receiver ∧ MethodKeyFits method ∧ args.length < twoPow 64 ∧ ExprsFit args
  | .methodRef receiver method => ExprFits receiver ∧ MethodKeyFits method
  | .unary _ operand => ExprFits operand
  | .binary _ lhs rhs => ExprFits lhs ∧ ExprFits rhs
  | .cast target e => TyFits target ∧ ExprFits e

/-- Those in each of the expressions can. -/
def ExprsFit : List Template.Expr → Prop
  | [] => True
  | e :: rest => ExprFits e ∧ ExprsFit rest

end

mutual

instance decidableExprFits : DecidablePred ExprFits
  | .placeholder name | .localRef name | .classRef name =>
    inferInstanceAs (Decidable (TextFits name))
  | .literal value => inferInstanceAs (Decidable (LiteralFits value))
  | .field receiver name =>
    have := decidableExprFits receiver
    inferInstanceAs (Decidable (ExprFits receiver ∧ TextFits name))
  | .call receiver method args =>
    have := decidableExprFits receiver
    have := decidableExprsFit args
    inferInstanceAs (Decidable
      (ExprFits receiver ∧ MethodKeyFits method ∧ args.length < twoPow 64 ∧ ExprsFit args))
  | .methodRef receiver method =>
    have := decidableExprFits receiver
    inferInstanceAs (Decidable (ExprFits receiver ∧ MethodKeyFits method))
  | .unary _ operand => decidableExprFits operand
  | .binary _ lhs rhs =>
    have := decidableExprFits lhs
    have := decidableExprFits rhs
    inferInstanceAs (Decidable (ExprFits lhs ∧ ExprFits rhs))
  | .cast target e =>
    have := decidableExprFits e
    inferInstanceAs (Decidable (TyFits target ∧ ExprFits e))

instance decidableExprsFit : DecidablePred ExprsFit
  | [] => inferInstanceAs (Decidable True)
  | e :: rest =>
    have := decidableExprFits e
    have := decidableExprsFit rest
    inferInstanceAs (Decidable (ExprFits e ∧ ExprsFit rest))

end

mutual

/-- How deep the expression nests. -/
def exprDepth : Template.Expr → Nat
  | .placeholder _ | .localRef _ | .literal _ | .classRef _ => 1
  | .field receiver _ | .methodRef receiver _ => exprDepth receiver + 1
  | .call receiver _ args => max (exprDepth receiver) (exprsDepth args) + 1
  | .unary _ operand => exprDepth operand + 1
  | .binary _ lhs rhs => max (exprDepth lhs) (exprDepth rhs) + 1
  | .cast _ e => exprDepth e + 1

/-- How deep the deepest expression nests. -/
def exprsDepth : List Template.Expr → Nat
  | [] => 0
  | e :: rest => max (exprDepth e) (exprsDepth rest)

end

theorem exprs_within_iff {es : List Template.Expr} {depth : Nat} :
    (∀ e ∈ es, ExprFits e ∧ exprDepth e ≤ depth) ↔ ExprsFit es ∧ exprsDepth es ≤ depth := by
  induction es with
  | nil => simp [ExprsFit, exprsDepth]
  | cons e rest ih =>
    rw [List.forall_mem_cons, ih, ExprsFit, exprsDepth, Nat.max_le, and_and_and_comm]

theorem exprs_eq_flatMap (es : List Template.Expr) : Encode.exprs es = es.flatMap Encode.expr := by
  induction es with
  | nil => rfl
  | cons e rest ih => rw [Encode.exprs, List.flatMap_cons, ih]

theorem expr_call (receiver : Template.Expr) (method : Template.MethodKey)
    (args : List Template.Expr) :
    Encode.expr (.call receiver method args) =
      Encode.tag 5 ++ (Encode.expr receiver ++
        (Encode.methodKey method ++ Encode.list Encode.expr args)) := by
  simp only [Encode.expr, Encode.list, exprs_eq_flatMap, List.append_assoc]

mutual

/-- Every level of an expression takes up bytes. -/
theorem exprDepth_le_length (e : Template.Expr) : exprDepth e ≤ (Encode.expr e).length := by
  match e with
  | .placeholder _ | .localRef _ | .literal _ | .classRef _ =>
    simp only [exprDepth, Encode.expr, Encode.tag, List.length_append, length_fixed]
    omega
  | .field receiver _ | .methodRef receiver _ | .unary _ receiver | .cast _ receiver =>
    have := exprDepth_le_length receiver
    simp only [exprDepth, Encode.expr, Encode.tag, List.length_append, length_fixed]
    omega
  | .call receiver _ args =>
    have := exprDepth_le_length receiver
    have := exprsDepth_le_length args
    simp only [exprDepth, Encode.expr, Encode.tag, List.length_append, length_fixed]
    omega
  | .binary _ lhs rhs =>
    have := exprDepth_le_length lhs
    have := exprDepth_le_length rhs
    simp only [exprDepth, Encode.expr, Encode.tag, List.length_append, length_fixed]
    omega

theorem exprsDepth_le_length (es : List Template.Expr) :
    exprsDepth es ≤ (Encode.exprs es).length := by
  match es with
  | [] => exact Nat.zero_le _
  | e :: rest =>
    have := exprDepth_le_length e
    have := exprsDepth_le_length rest
    simp only [exprsDepth, Encode.exprs, List.length_append]
    omega

end

/-- Expressions are read as deep as their decoder goes. -/
theorem reads_exprWithin (depth : Nat) :
    Reads (Decode.exprWithin depth) Encode.expr
      (fun e => ExprFits e ∧ exprDepth e ≤ depth) := by
  induction depth with
  | zero =>
    refine fun bytes e rest => ⟨nofun, ?_⟩
    rintro ⟨-, -, hdepth⟩
    cases e <;> simp [exprDepth] at hdepth
  | succ depth ih =>
    intro bytes e rest
    rw [Decode.exprWithin]
    constructor
    · rw [reads_tag.bind_iff]
      rintro ⟨n, -, mid, rfl, h⟩
      rcases n with _ | _ | _ | _ | _ | _ | _ | _ | _ | _ | n <;>
        simp only [Nat.zero_add, Nat.reduceAdd, reads_text.bind_iff, reads_literal.bind_iff,
          reads_methodKey.bind_iff, reads_unaryOp.bind_iff, reads_binaryOp.bind_iff,
          reads_ty.bind_iff, ih.bind_iff, ih.list.bind_iff, pure_eq_ok_iff] at h
      · obtain ⟨name, hname, _, rfl, rfl, rfl⟩ := h
        exact ⟨(List.append_assoc _ _ _).symm, hname, Nat.le_add_left 1 depth⟩
      · obtain ⟨name, hname, _, rfl, rfl, rfl⟩ := h
        exact ⟨(List.append_assoc _ _ _).symm, hname, Nat.le_add_left 1 depth⟩
      · obtain ⟨value, hvalue, _, rfl, rfl, rfl⟩ := h
        exact ⟨(List.append_assoc _ _ _).symm, hvalue, Nat.le_add_left 1 depth⟩
      · obtain ⟨name, hname, _, rfl, rfl, rfl⟩ := h
        exact ⟨(List.append_assoc _ _ _).symm, hname, Nat.le_add_left 1 depth⟩
      · obtain ⟨receiver, ⟨hreceiver, hdepth⟩, _, rfl, name, hname, _, rfl, rfl, rfl⟩ := h
        exact ⟨by simp [Encode.expr], ⟨hreceiver, hname⟩, Nat.succ_le_succ hdepth⟩
      · obtain ⟨receiver, ⟨hreceiver, hdepth⟩, _, rfl, method, hmethod, _, rfl,
          args, ⟨hcounted, hargs⟩, _, rfl, rfl, rfl⟩ := h
        obtain ⟨hargs, hdepths⟩ := exprs_within_iff.1 hargs
        exact ⟨by simp [expr_call], ⟨hreceiver, hmethod, hcounted, hargs⟩,
          Nat.succ_le_succ (Nat.max_le.2 ⟨hdepth, hdepths⟩)⟩
      · obtain ⟨receiver, ⟨hreceiver, hdepth⟩, _, rfl, method, hmethod, _, rfl, rfl, rfl⟩ := h
        exact ⟨by simp [Encode.expr], ⟨hreceiver, hmethod⟩, Nat.succ_le_succ hdepth⟩
      · obtain ⟨op, -, _, rfl, operand, ⟨hoperand, hdepth⟩, _, rfl, rfl, rfl⟩ := h
        exact ⟨by simp [Encode.expr], hoperand, Nat.succ_le_succ hdepth⟩
      · obtain ⟨op, -, _, rfl, lhs, ⟨hlhs, hdepth⟩, _, rfl, rhs, ⟨hrhs, hdepth'⟩, _, rfl,
          rfl, rfl⟩ := h
        exact ⟨by simp [Encode.expr], ⟨hlhs, hrhs⟩,
          Nat.succ_le_succ (Nat.max_le.2 ⟨hdepth, hdepth'⟩)⟩
      · obtain ⟨target, htarget, _, rfl, e, ⟨he, hdepth⟩, _, rfl, rfl, rfl⟩ := h
        exact ⟨by simp [Encode.expr], ⟨htarget, he⟩, Nat.succ_le_succ hdepth⟩
      · exact absurd h throw_ne_ok
    · rintro ⟨rfl, hfits, hdepth⟩
      cases e with
      | placeholder name | localRef name | classRef name | literal value =>
        simp only [ExprFits] at hfits
        simp (disch := first | decide | assumption) only [Encode.expr, List.append_assoc,
          reads_tag.bind_append, reads_text.bind_append, reads_literal.bind_append]
        rfl
      | field receiver name =>
        obtain ⟨hreceiver, hname⟩ := hfits
        have hreceiver := And.intro hreceiver (Nat.le_of_succ_le_succ hdepth)
        simp (disch := first | decide | assumption) only [Encode.expr, List.append_assoc,
          reads_tag.bind_append, ih.bind_append, reads_text.bind_append]
        rfl
      | call receiver method args =>
        obtain ⟨hreceiver, hmethod, hcounted, hargs⟩ := hfits
        obtain ⟨hdepth, hdepths⟩ := Nat.max_le.1 (Nat.le_of_succ_le_succ hdepth)
        have hreceiver := And.intro hreceiver hdepth
        have hargs := ListFits.mk hcounted (exprs_within_iff.2 ⟨hargs, hdepths⟩)
        simp (disch := first | decide | assumption) only [expr_call, List.append_assoc,
          reads_tag.bind_append, ih.bind_append, reads_methodKey.bind_append, ih.list.bind_append]
        rfl
      | methodRef receiver method =>
        obtain ⟨hreceiver, hmethod⟩ := hfits
        have hreceiver := And.intro hreceiver (Nat.le_of_succ_le_succ hdepth)
        simp (disch := first | decide | assumption) only [Encode.expr, List.append_assoc,
          reads_tag.bind_append, ih.bind_append, reads_methodKey.bind_append]
        rfl
      | unary op operand =>
        have hoperand : ExprFits operand ∧ exprDepth operand ≤ depth :=
          ⟨hfits, Nat.le_of_succ_le_succ hdepth⟩
        simp (disch := first | decide | assumption) only [Encode.expr, List.append_assoc,
          reads_tag.bind_append, reads_unaryOp.bind_append, ih.bind_append]
        rfl
      | binary op lhs rhs =>
        obtain ⟨hlhs, hrhs⟩ := hfits
        obtain ⟨hdepth, hdepth'⟩ := Nat.max_le.1 (Nat.le_of_succ_le_succ hdepth)
        have hlhs := And.intro hlhs hdepth
        have hrhs := And.intro hrhs hdepth'
        simp (disch := first | decide | assumption) only [Encode.expr, List.append_assoc,
          reads_tag.bind_append, reads_binaryOp.bind_append, ih.bind_append]
        rfl
      | cast target e =>
        obtain ⟨htarget, he⟩ := hfits
        have he := And.intro he (Nat.le_of_succ_le_succ hdepth)
        simp (disch := first | decide | assumption) only [Encode.expr, List.append_assoc,
          reads_tag.bind_append, reads_ty.bind_append, ih.bind_append]
        rfl

/-- **Expressions are read.** -/
theorem reads_expr : Reads Decode.expr Encode.expr ExprFits :=
  .of_within reads_exprWithin exprDepth_le_length

/-! ## Templates -/

/-- The parts of a statement can be written. -/
def StmtFits : Template.Stmt → Prop
  | .expr e => ExprFits e
  | .ret e => ∀ e' ∈ e, ExprFits e'
  | .localVar name ty init => TextFits name ∧ TyFits ty ∧ ∀ e ∈ init, ExprFits e

instance : DecidablePred StmtFits
  | .expr e => inferInstanceAs (Decidable (ExprFits e))
  | .ret e => inferInstanceAs (Decidable (∀ e' ∈ e, ExprFits e'))
  | .localVar name ty init =>
    inferInstanceAs (Decidable (TextFits name ∧ TyFits ty ∧ ∀ e ∈ init, ExprFits e))

theorem reads_stmt : Reads Decode.stmt Encode.stmt StmtFits := by
  intro bytes stmt rest
  rw [Decode.stmt]
  constructor
  · rw [reads_tag.bind_iff]
    rintro ⟨n, -, mid, rfl, h⟩
    rcases n with _ | _ | _ | n <;>
      simp only [Nat.zero_add, Nat.reduceAdd, reads_expr.bind_iff, reads_expr.option.bind_iff,
        reads_text.bind_iff, reads_ty.bind_iff, pure_eq_ok_iff] at h
    · obtain ⟨e, he, _, rfl, rfl, rfl⟩ := h
      exact ⟨(List.append_assoc _ _ _).symm, he⟩
    · obtain ⟨e, he, _, rfl, rfl, rfl⟩ := h
      exact ⟨(List.append_assoc _ _ _).symm, he⟩
    · obtain ⟨name, hname, _, rfl, ty, hty, _, rfl, init, hinit, _, rfl, rfl, rfl⟩ := h
      exact ⟨by simp [Encode.stmt], hname, hty, hinit⟩
    · exact absurd h throw_ne_ok
  · rintro ⟨rfl, hfits⟩
    cases stmt with
    | expr e | ret e =>
      simp only [StmtFits] at hfits
      simp (disch := first | decide | assumption) only [Encode.stmt, List.append_assoc,
        reads_tag.bind_append, reads_expr.bind_append, reads_expr.option.bind_append]
      rfl
    | localVar name ty init =>
      obtain ⟨hname, hty, hinit⟩ := hfits
      simp (disch := first | decide | assumption) only [Encode.stmt, List.append_assoc,
        reads_tag.bind_append, reads_text.bind_append, reads_ty.bind_append,
        reads_expr.option.bind_append]
      rfl

/-- The statements of a block can be counted and written, and so can an expression. -/
def BodyFits : Template.Body → Prop
  | .expr e => ExprFits e
  | .block stmts => ListFits StmtFits stmts

instance : DecidablePred BodyFits
  | .expr e => inferInstanceAs (Decidable (ExprFits e))
  | .block stmts => inferInstanceAs (Decidable (ListFits StmtFits stmts))

theorem reads_body : Reads Decode.body Encode.body BodyFits := by
  intro bytes body rest
  rw [Decode.body]
  constructor
  · rw [reads_tag.bind_iff]
    rintro ⟨n, -, mid, rfl, h⟩
    rcases n with _ | _ | n <;>
      simp only [Nat.zero_add, reads_expr.bind_iff, reads_stmt.list.bind_iff,
        pure_eq_ok_iff] at h
    · obtain ⟨e, he, _, rfl, rfl, rfl⟩ := h
      exact ⟨(List.append_assoc _ _ _).symm, he⟩
    · obtain ⟨stmts, hstmts, _, rfl, rfl, rfl⟩ := h
      exact ⟨(List.append_assoc _ _ _).symm, hstmts⟩
    · exact absurd h throw_ne_ok
  · rintro ⟨rfl, hfits⟩
    cases body <;> simp only [BodyFits] at hfits <;>
      simp (disch := first | decide | assumption) only [Encode.body, List.append_assoc,
        reads_tag.bind_append, reads_expr.bind_append, reads_stmt.list.bind_append] <;>
      rfl

/-- The name of an exception can be counted. -/
def GuardFits : Template.Guard → Prop
  | .parentIsReturn => True
  | .throws exception => TextFits exception

instance : DecidablePred GuardFits
  | .parentIsReturn => inferInstanceAs (Decidable True)
  | .throws exception => inferInstanceAs (Decidable (TextFits exception))

theorem reads_guard : Reads Decode.guard Encode.guard GuardFits := by
  intro bytes guard rest
  rw [Decode.guard]
  constructor
  · rw [reads_tag.bind_iff]
    rintro ⟨n, -, mid, rfl, h⟩
    rcases n with _ | _ | n <;>
      simp only [Nat.zero_add, reads_text.bind_iff, pure_eq_ok_iff] at h
    · obtain ⟨rfl, rfl⟩ := h
      exact ⟨rfl, trivial⟩
    · obtain ⟨exception, hexception, _, rfl, rfl, rfl⟩ := h
      exact ⟨(List.append_assoc _ _ _).symm, hexception⟩
    · exact absurd h throw_ne_ok
  · rintro ⟨rfl, hfits⟩
    cases guard <;> simp only [GuardFits] at hfits <;>
      simp (disch := first | decide | assumption) only [Encode.guard, List.append_assoc,
        reads_tag.bind_append, reads_text.bind_append] <;>
      rfl

/-- The name, the type and the guard of a placeholder can be written. -/
@[mk_iff]
structure PlaceholderFits (p : Template.Placeholder) : Prop where
  name : TextFits p.name
  ty : TyFits p.ty
  guard : ∀ guard ∈ p.guard, GuardFits guard

instance : DecidablePred PlaceholderFits := fun x => decidable_of_iff' _ (placeholderFits_iff x)

theorem reads_placeholder : Reads Decode.placeholder Encode.placeholder PlaceholderFits := by
  intro bytes p rest
  rw [Decode.placeholder]
  constructor
  · simp only [reads_text.bind_iff, reads_ty.bind_iff, reads_guard.option.bind_iff, pure_eq_ok_iff]
    rintro ⟨name, hname, _, rfl, ty, hty, _, rfl, guard, hguard, _, rfl, rfl, rfl⟩
    exact ⟨by simp [Encode.placeholder], hname, hty, hguard⟩
  · rintro ⟨rfl, hname, hty, hguard⟩
    simp (disch := assumption) only [Encode.placeholder, List.append_assoc,
      reads_text.bind_append, reads_ty.bind_append, reads_guard.option.bind_append]
    rfl

/-- The lists of a template can be counted, and its parts written. -/
@[mk_iff]
structure TemplateFits (t : Template) : Prop where
  name : TextFits t.name
  typeParams : ListFits TypeVarFits t.typeParams
  params : ListFits PlaceholderFits t.params
  returnType : TyFits t.returnType
  body : BodyFits t.body

instance : DecidablePred TemplateFits := fun x => decidable_of_iff' _ (templateFits_iff x)

theorem reads_template : Reads Decode.template Encode.template TemplateFits := by
  intro bytes t rest
  rw [Decode.template]
  constructor
  · simp only [reads_text.bind_iff, reads_typeVar.list.bind_iff, reads_placeholder.list.bind_iff,
      reads_ty.bind_iff, reads_body.bind_iff, pure_eq_ok_iff]
    rintro ⟨name, hname, _, rfl, typeParams, htypeParams, _, rfl, params, hparams, _, rfl,
      returnType, hreturnType, _, rfl, body, hbody, _, rfl, rfl, rfl⟩
    exact ⟨by simp [Encode.template], hname, htypeParams, hparams, hreturnType, hbody⟩
  · rintro ⟨rfl, hname, htypeParams, hparams, hreturnType, hbody⟩
    simp (disch := assumption) only [Encode.template, List.append_assoc,
      reads_text.bind_append, reads_typeVar.list.bind_append, reads_placeholder.list.bind_append,
      reads_ty.bind_append, reads_body.bind_append]
    rfl

/-! ## Rules -/

/-- The declared ends of a migration can be written. -/
@[mk_iff]
structure DescriptorFits (d : RuleDescriptor) : Prop where
  fromTy : ∀ ty ∈ d.fromTy, TyFits ty
  toTy : ∀ ty ∈ d.toTy, TyFits ty

instance : DecidablePred DescriptorFits := fun x => decidable_of_iff' _ (descriptorFits_iff x)

theorem reads_direction : Reads (Decode.oneOf directions) (Encode.oneOf directions) fun _ => True :=
  (reads_oneOf (by decide) (by decide)).congr (fun _ => rfl) (by rintro ⟨⟩ <;> decide)

theorem reads_descriptor : Reads Decode.descriptor Encode.descriptor DescriptorFits := by
  intro bytes d rest
  rw [Decode.descriptor]
  constructor
  · simp only [reads_bool.bind_iff, reads_direction.option.bind_iff, reads_ty.option.bind_iff,
      pure_eq_ok_iff]
    rintro ⟨rejectComments, -, _, rfl, migration, -, _, rfl, fromTy, hfrom, _, rfl,
      toTy, hto, _, rfl, rfl, rfl⟩
    exact ⟨by simp [Encode.descriptor], hfrom, hto⟩
  · rintro ⟨rfl, hfrom, hto⟩
    simp (disch := first | assumption | simp) only [Encode.descriptor, List.append_assoc,
      reads_bool.bind_append, reads_direction.option.bind_append, reads_ty.option.bind_append]
    rfl

/-- The templates of a rule can be counted and written. -/
@[mk_iff]
structure RuleFits (r : Rule) : Prop where
  name : TextFits r.name
  before : ListFits TemplateFits r.before
  after : ListFits TemplateFits r.after
  descriptor : DescriptorFits r.descriptor

instance : DecidablePred RuleFits := fun x => decidable_of_iff' _ (ruleFits_iff x)

/-- **Rules are read.** -/
theorem reads_rule : Reads Decode.rule Encode.rule RuleFits := by
  intro bytes r rest
  rw [Decode.rule]
  constructor
  · simp only [reads_text.bind_iff, reads_template.list.bind_iff, reads_descriptor.bind_iff,
      pure_eq_ok_iff]
    rintro ⟨name, hname, _, rfl, before, hbefore, _, rfl, after, hafter, _, rfl,
      descriptor, hdescriptor, _, rfl, rfl, rfl⟩
    exact ⟨by simp [Encode.rule], hname, hbefore, hafter, hdescriptor⟩
  · rintro ⟨rfl, hname, hbefore, hafter, hdescriptor⟩
    simp (disch := assumption) only [Encode.rule, List.append_assoc,
      reads_text.bind_append, reads_template.list.bind_append, reads_descriptor.bind_append]
    rfl

/-- Both rules of a pair can be written, and so can its types. -/
@[mk_iff]
structure MigrationPairFits (p : MigrationPair) : Prop where
  name : TextFits p.name
  forward : RuleFits p.forward
  backward : RuleFits p.backward
  typeFrom : TyFits p.typeFrom
  typeTo : TyFits p.typeTo

instance : DecidablePred MigrationPairFits := fun x => decidable_of_iff' _ (migrationPairFits_iff x)

/-- **Migration pairs are read.** -/
theorem reads_migrationPair :
    Reads Decode.migrationPair Encode.migrationPair MigrationPairFits := by
  intro bytes p rest
  rw [Decode.migrationPair]
  constructor
  · simp only [reads_text.bind_iff, reads_rule.bind_iff, reads_ty.bind_iff, pure_eq_ok_iff]
    rintro ⟨name, hname, _, rfl, forward, hforward, _, rfl, backward, hbackward, _, rfl,
      typeFrom, hfrom, _, rfl, typeTo, hto, _, rfl, rfl, rfl⟩
    exact ⟨by simp [Encode.migrationPair], hname, hforward, hbackward, hfrom, hto⟩
  · rintro ⟨rfl, hname, hforward, hbackward, hfrom, hto⟩
    simp (disch := assumption) only [Encode.migrationPair, List.append_assoc,
      reads_text.bind_append, reads_rule.bind_append, reads_ty.bind_append]
    rfl

end Codemod.Blob
