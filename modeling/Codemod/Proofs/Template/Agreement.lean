import Codemod.Proofs.Tree.Shape
import Codemod.Template.Matching
/-!
# Agreement of templates and code

Matching does two things in one pass: it compares a template with code, and it
extends the bindings. Here the two are taken apart. `Agrees` relates an
expression of a template to code it agrees with, constructor by constructor,
and lists from left to right what that asks of the bindings: a placeholder
meets an expression, a local meets a local, a type meets a type. Meeting these
demands one after the other is all that bindings have to do with it
(`matchExpr?_eq_some_iff`). The same goes for statements, and the instances of
a template are what its demands make of empty bindings
(`mem_instances_expr_iff`, `mem_instances_block_iff`).

So what a match establishes about its bindings is a matter of lists of demands,
and no longer of trees.
-/

namespace Codemod.Template

/-! ## Demands -/

/-- Something that agreement with code asks of the bindings. -/
inductive Demand where
  /-- A placeholder is used for an expression below its parent. -/
  | use (placeholder : String) (node : Node) (parent : Option Node)
  /-- A local of the template stands for a local of the code. -/
  | rename (template code : String)
  /-- A type of the template agrees with a type of the code. -/
  | agree (declared actual : Ty)
  /-- A value of a type of the code is given where the template declares a
  type. -/
  | fit (declared actual : Ty)

namespace Demand

/-- Extends the bindings as the demand asks, if they allow it. -/
def meet? (o : TypeOracle) (t : Template) : Demand → Bindings → Option Bindings
  | .use name node parent, b => t.matchPlaceholder? o name node parent b
  | .rename template code, b => b.bindLocal? template code
  | .agree declared actual, b =>
    (o.agree? declared actual b.types).map fun types => { b with types }
  | .fit declared actual, b =>
    (o.assign? declared actual b.types).map fun types => { b with types }

/-- Meets demands from left to right. -/
def meetAll? (o : TypeOracle) (t : Template) : List Demand → Bindings → Option Bindings
  | [], b => some b
  | d :: rest, b => (d.meet? o t b).bind (meetAll? o t rest)

variable {o : TypeOracle} {t : Template}

theorem meetAll?_append (ds es : List Demand) (b : Bindings) :
    meetAll? o t (ds ++ es) b = (meetAll? o t ds b).bind (meetAll? o t es) := by
  induction ds generalizing b with
  | nil => rfl
  | cons d ds ih =>
    rw [List.cons_append, meetAll?, meetAll?, Option.bind_assoc]
    exact Option.bind_congr fun b' _ => ih b'

theorem meetAll?_append_eq_some_iff {ds es : List Demand} {b b' : Bindings} :
    meetAll? o t (ds ++ es) b = some b' ↔
      ∃ middle, meetAll? o t ds b = some middle ∧ meetAll? o t es middle = some b' := by
  rw [meetAll?_append, Option.bind_eq_some_iff]

theorem meetAll?_singleton (d : Demand) (b : Bindings) : meetAll? o t [d] b = d.meet? o t b := by
  rw [meetAll?]
  cases d.meet? o t b <;> rfl

end Demand

/-! ## Agreement -/

mutual

/-- An expression of a template agrees with code below a parent, and asks for
the listed demands. Grouping parentheses around the code are skipped, classes
are compared as what they resolve to and methods by `MethodKey.denotes`. A
static member may be written without its class where it is imported. -/
inductive Agrees (o : TypeOracle) : Expr → Node → Option Node → List Demand → Prop
  | placeholder {name : String} {code : Node} {parent : Option Node} :
      Agrees o (.placeholder name) code parent [.use name code.skipParens parent]
  | localRef {name spelled symbol : String} {code : Node} {parent : Option Node}
      {info : NodeInfo} :
      code.skipParens = .ident info spelled → info.symbol = some (.ofLocal symbol) →
      Agrees o (.localRef name) code parent [.rename name symbol]
  | literal {value value' : Literal} {code : Node} {parent : Option Node} {info : NodeInfo} :
      code.skipParens = .literal info value' → (value' == value) = true →
      Agrees o (.literal value) code parent []
  | classRef {name : String} {code : Node} {parent : Option Node} :
      refersToClass name code.skipParens = true →
      Agrees o (.classRef name) code parent []
  | field {receiver : Expr} {name : String} {code target : Node} {parent : Option Node}
      {info : NodeInfo} {nameSpan : Span} {ds : List Demand} :
      code.skipParens = .select info target name nameSpan →
      Agrees o receiver target (some code.skipParens) ds →
      Agrees o (.field receiver name) code parent ds
  | importedField {owner name symbol : String} {code : Node} {parent : Option Node}
      {info : NodeInfo} :
      code.skipParens = .ident info name → info.symbol = some (.ofField owner symbol true) →
      Agrees o (.field (.classRef owner) name) code parent []
  | call {receiver : Expr} {method : MethodKey} {args : List Expr} {code target : Node}
      {parent : Option Node} {info calleeInfo : NodeInfo} {name : String} {nameSpan : Span}
      {args' : List Node} {called : MethodSymbol} {ds es : List Demand} :
      code.skipParens = .call info (.select calleeInfo target name nameSpan) args' →
      code.skipParens.methodSymbol? = some called → method.denotes o called = true →
      Agrees o receiver target (some code.skipParens) ds →
      AgreesAll o args args' (some code.skipParens) es →
      Agrees o (.call receiver method args) code parent (ds ++ es)
  | importedCall {receiver : Expr} {method : MethodKey} {args : List Expr} {code : Node}
      {parent : Option Node} {info calleeInfo : NodeInfo} {name : String} {args' : List Node}
      {called : MethodSymbol} {es : List Demand} :
      code.skipParens = .call info (.ident calleeInfo name) args' → method.isStatic = true →
      code.skipParens.methodSymbol? = some called → method.denotes o called = true →
      AgreesAll o args args' (some code.skipParens) es →
      Agrees o (.call receiver method args) code parent es
  | methodRef {receiver : Expr} {method : MethodKey} {code target : Node} {parent : Option Node}
      {info : NodeInfo} {name : String} {called : MethodSymbol} {ds : List Demand} :
      code.skipParens = .methodRef info target name →
      code.skipParens.methodSymbol? = some called → method.denotes o called = true →
      Agrees o receiver target (some code.skipParens) ds →
      Agrees o (.methodRef receiver method) code parent ds
  | unary {op : UnaryOp} {operand : Expr} {code operand' : Node} {parent : Option Node}
      {info : NodeInfo} {ds : List Demand} :
      code.skipParens = .unary info op operand' →
      Agrees o operand operand' (some code.skipParens) ds →
      Agrees o (.unary op operand) code parent ds
  | binary {op : BinaryOp} {lhs rhs : Expr} {code lhs' rhs' : Node} {parent : Option Node}
      {info : NodeInfo} {ds es : List Demand} :
      code.skipParens = .binary info op lhs' rhs' →
      Agrees o lhs lhs' (some code.skipParens) ds →
      Agrees o rhs rhs' (some code.skipParens) es →
      Agrees o (.binary op lhs rhs) code parent (ds ++ es)
  | cast {target target' : Ty} {expr : Expr} {code expr' : Node} {parent : Option Node}
      {info : NodeInfo} {ds : List Demand} :
      code.skipParens = .cast info target' expr' →
      Agrees o expr expr' (some code.skipParens) ds →
      Agrees o (.cast target expr) code parent (.agree target target' :: ds)

/-- Expressions of a template agree with as many expressions of the code, one
by one. -/
inductive AgreesAll (o : TypeOracle) : List Expr → List Node → Option Node → List Demand → Prop
  | nil {parent : Option Node} : AgreesAll o [] [] parent []
  | cons {e : Expr} {es : List Expr} {code : Node} {codes : List Node} {parent : Option Node}
      {ds rest : List Demand} :
      Agrees o e code parent ds → AgreesAll o es codes parent rest →
      AgreesAll o (e :: es) (code :: codes) parent (ds ++ rest)

end

variable {o : TypeOracle} {t : Template}

theorem AgreesAll.length_eq {es : List Expr} {codes : List Node} {parent : Option Node}
    {ds : List Demand} (h : AgreesAll o es codes parent ds) : codes.length = es.length := by
  induction es generalizing codes ds with
  | nil => cases h; rfl
  | cons e es ih =>
    cases h with
    | cons _ hrest => rw [List.length_cons, List.length_cons, ih hrest]

/-! ## Matching is agreement and meeting demands -/

/-- A call is matched by its method, then by its receiver unless that is left
out, then by its arguments. -/
theorem matchExpr?_call_eq_some_iff {receiver : Expr} {method : MethodKey} {args : List Expr}
    {code callee : Node} {info : NodeInfo} {args' : List Node} {parent : Option Node}
    {b b' : Bindings} (hcode : code.skipParens = .call info callee args') :
    t.matchExpr? o (.call receiver method args) code parent b = some b' ↔
      ∃ called, code.skipParens.methodSymbol? = some called ∧
        method.denotes o called = true ∧ args'.length = args.length ∧
        ((∃ calleeInfo target name nameSpan middle,
            callee = .select calleeInfo target name nameSpan ∧
            t.matchExpr? o receiver target (some code.skipParens) b = some middle ∧
            t.matchExprs? o args args' (some code.skipParens) middle = some b') ∨
          (∃ calleeInfo name, callee = .ident calleeInfo name ∧ method.isStatic = true ∧
            t.matchExprs? o args args' (some code.skipParens) b = some b')) := by
  rw [matchExpr?, hcode]
  constructor
  · intro h
    obtain ⟨called, hcalled, hrest⟩ := Option.bind_eq_some_iff.1 h
    clear h
    -- The method and the number of arguments are tested before anything is compared.
    by_cases hfits : (args'.length != args.length || !method.denotes o called) = true
    · rw [if_pos hfits] at hrest
      exact absurd hrest (by simp)
    rw [if_neg hfits] at hrest
    simp only [Bool.or_eq_true, bne_iff_ne, ne_eq, Bool.not_eq_true', not_or, Decidable.not_not,
      Bool.not_eq_false] at hfits
    refine ⟨called, hcalled, hfits.2, hfits.1, ?_⟩
    cases callee
    case select calleeInfo target name nameSpan =>
      obtain ⟨middle, hreceiver, hargs⟩ := Option.bind_eq_some_iff.1 hrest
      exact .inl ⟨calleeInfo, target, name, nameSpan, middle, rfl, hreceiver, hargs⟩
    case ident calleeInfo name =>
      dsimp only at hrest
      split at hrest
      · exact .inr ⟨calleeInfo, name, rfl, by assumption, hrest⟩
      · exact absurd hrest (by simp)
    all_goals exact absurd hrest (by simp)
  · rintro ⟨called, hcalled, hdenotes, hlength, hcallee⟩
    refine Option.bind_eq_some_iff.2 ⟨called, hcalled, ?_⟩
    rw [if_neg (by simp [hdenotes, hlength])]
    rcases hcallee with ⟨calleeInfo, target, name, nameSpan, middle, rfl, hreceiver, hargs⟩ |
      ⟨calleeInfo, name, rfl, hstatic, hargs⟩
    · exact Option.bind_eq_some_iff.2 ⟨middle, hreceiver, hargs⟩
    · dsimp only
      rw [if_pos hstatic]
      exact hargs

theorem matchExpr?_methodRef_eq_some_iff {receiver : Expr} {method : MethodKey}
    {code target : Node} {info : NodeInfo} {name : String} {parent : Option Node}
    {b b' : Bindings} (hcode : code.skipParens = .methodRef info target name) :
    t.matchExpr? o (.methodRef receiver method) code parent b = some b' ↔
      ∃ called, code.skipParens.methodSymbol? = some called ∧
        method.denotes o called = true ∧
        t.matchExpr? o receiver target (some code.skipParens) b = some b' := by
  rw [matchExpr?, hcode]
  constructor
  · intro h
    obtain ⟨called, hcalled, h⟩ := Option.bind_eq_some_iff.1 h
    by_cases hdenotes : method.denotes o called = true
    · rw [if_neg (by simp [hdenotes])] at h
      exact ⟨called, hcalled, hdenotes, h⟩
    · rw [if_pos (by simpa using hdenotes)] at h
      exact absurd h (by simp)
  · rintro ⟨called, hcalled, hdenotes, hreceiver⟩
    refine Option.bind_eq_some_iff.2 ⟨called, hcalled, ?_⟩
    rw [if_neg (by simp [hdenotes])]
    exact hreceiver

mutual

/-- Code that matches agrees with the template, and the match has met what that
asks for. -/
theorem exists_agrees_of_matchExpr? {e : Expr} {code : Node} {parent : Option Node}
    {b b' : Bindings} (h : t.matchExpr? o e code parent b = some b') :
    ∃ ds, Agrees o e code parent ds ∧ Demand.meetAll? o t ds b = some b' := by
  cases e
  case placeholder name =>
    rw [matchExpr?] at h
    exact ⟨_, .placeholder, by rw [Demand.meetAll?_singleton]; exact h⟩
  case localRef name =>
    rw [matchExpr?] at h
    split at h
    · rename_i hcode
      exact ⟨_, .localRef hcode rfl, by rw [Demand.meetAll?_singleton]; exact h⟩
    · exact absurd h (by simp)
  case literal value =>
    rw [matchExpr?] at h
    split at h
    · rename_i hcode
      rw [Option.ite_none_right_eq_some] at h
      exact ⟨[], .literal hcode h.1, h.2⟩
    · exact absurd h (by simp)
  case classRef name =>
    rw [matchExpr?, Option.ite_none_right_eq_some] at h
    exact ⟨[], .classRef h.1, h.2⟩
  case field receiver name =>
    rw [matchExpr?] at h
    split at h
    · rename_i hcode
      rw [Option.ite_none_right_eq_some] at h
      obtain ⟨rfl, hreceiver⟩ := h
      rw [← hcode] at hreceiver
      obtain ⟨ds, hds, hmeet⟩ := exists_agrees_of_matchExpr? hreceiver
      exact ⟨ds, .field hcode hds, hmeet⟩
    · rename_i info spelled hcode
      rw [Option.ite_none_right_eq_some, Bool.and_eq_true, decide_eq_true_eq] at h
      obtain ⟨⟨rfl, himported⟩, hb⟩ := h
      unfold isImportedField at himported
      split at himported
      · rename_i owner symbol hsymbol
        rw [beq_iff_eq] at himported
        exact ⟨[], .importedField hcode (himported ▸ hsymbol), hb⟩
      · exact absurd himported (by simp)
    · exact absurd h (by simp)
  case call receiver method args =>
    cases hcode : code.skipParens
    case call info callee args' =>
      obtain ⟨called, hcalled, hdenotes, -, hcallee⟩ :=
        (matchExpr?_call_eq_some_iff hcode).1 h
      -- The receiver is compared, or left out where the method is imported.
      rcases hcallee with ⟨calleeInfo, target, name, nameSpan, middle, rfl, hreceiver, hargs⟩ |
        ⟨calleeInfo, name, rfl, hstatic, hargs⟩
      · obtain ⟨ds, hds, hmeet⟩ := exists_agrees_of_matchExpr? hreceiver
        obtain ⟨es, hes, hmeet'⟩ := exists_agreesAll_of_matchExprs? hargs
        exact ⟨ds ++ es, .call hcode hcalled hdenotes hds hes,
          Demand.meetAll?_append_eq_some_iff.2 ⟨middle, hmeet, hmeet'⟩⟩
      · obtain ⟨es, hes, hmeet⟩ := exists_agreesAll_of_matchExprs? hargs
        exact ⟨es, .importedCall hcode hstatic hcalled hdenotes hes, hmeet⟩
    all_goals exact absurd h (by rw [matchExpr?, hcode]; simp)
  case methodRef receiver method =>
    cases hcode : code.skipParens
    case methodRef info target name =>
      obtain ⟨called, hcalled, hdenotes, hreceiver⟩ :=
        (matchExpr?_methodRef_eq_some_iff hcode).1 h
      obtain ⟨ds, hds, hmeet⟩ := exists_agrees_of_matchExpr? hreceiver
      exact ⟨ds, .methodRef hcode hcalled hdenotes hds, hmeet⟩
    all_goals exact absurd h (by rw [matchExpr?, hcode]; simp)
  case unary op operand =>
    rw [matchExpr?] at h
    split at h
    · rename_i hcode
      rw [Option.ite_none_right_eq_some] at h
      obtain ⟨rfl, hoperand⟩ := h
      rw [← hcode] at hoperand
      obtain ⟨ds, hds, hmeet⟩ := exists_agrees_of_matchExpr? hoperand
      exact ⟨ds, .unary hcode hds, hmeet⟩
    · exact absurd h (by simp)
  case binary op lhs rhs =>
    rw [matchExpr?] at h
    split at h
    · rename_i hcode
      rw [Option.ite_none_right_eq_some] at h
      obtain ⟨rfl, hoperands⟩ := h
      obtain ⟨middle, hlhs, hrhs⟩ := Option.bind_eq_some_iff.1 hoperands
      rw [← hcode] at hlhs hrhs
      obtain ⟨ds, hds, hmeet⟩ := exists_agrees_of_matchExpr? hlhs
      obtain ⟨es, hes, hmeet'⟩ := exists_agrees_of_matchExpr? hrhs
      exact ⟨ds ++ es, .binary hcode hds hes,
        Demand.meetAll?_append_eq_some_iff.2 ⟨middle, hmeet, hmeet'⟩⟩
    · exact absurd h (by simp)
  case cast target expr =>
    rw [matchExpr?] at h
    split at h
    · rename_i hcode
      obtain ⟨types, htypes, hexpr⟩ := Option.bind_eq_some_iff.1 h
      rw [← hcode] at hexpr
      obtain ⟨ds, hds, hmeet⟩ := exists_agrees_of_matchExpr? hexpr
      refine ⟨_, .cast hcode hds, ?_⟩
      rw [Demand.meetAll?, Demand.meet?, htypes]
      exact hmeet
    · exact absurd h (by simp)

theorem exists_agreesAll_of_matchExprs? {es : List Expr} {codes : List Node}
    {parent : Option Node} {b b' : Bindings}
    (h : t.matchExprs? o es codes parent b = some b') :
    ∃ ds, AgreesAll o es codes parent ds ∧ Demand.meetAll? o t ds b = some b' := by
  match es, codes with
  | [], [] => exact ⟨[], .nil, h⟩
  | e :: es, code :: codes =>
    obtain ⟨middle, he, hrest⟩ := Option.bind_eq_some_iff.1 h
    obtain ⟨ds, hds, hmeet⟩ := exists_agrees_of_matchExpr? he
    obtain ⟨rest, hrest, hmeet'⟩ := exists_agreesAll_of_matchExprs? hrest
    exact ⟨ds ++ rest, .cons hds hrest,
      Demand.meetAll?_append_eq_some_iff.2 ⟨middle, hmeet, hmeet'⟩⟩
  | [], _ :: _ => exact absurd h (by simp [matchExprs?])
  | _ :: _, [] => exact absurd h (by simp [matchExprs?])

end

mutual

/-- Code that agrees with a template matches it as soon as the demands can be
met. -/
theorem matchExpr?_of_agrees {e : Expr} {code : Node} {parent : Option Node} {ds : List Demand}
    {b b' : Bindings} (h : Agrees o e code parent ds)
    (hmeet : Demand.meetAll? o t ds b = some b') :
    t.matchExpr? o e code parent b = some b' := by
  cases e
  case placeholder name =>
    cases h
    rw [Demand.meetAll?_singleton] at hmeet
    exact hmeet
  case localRef name =>
    cases h with
    | @localRef _ _ _ _ _ info hcode hsymbol =>
      obtain ⟨span, ty, symbol⟩ := info
      obtain rfl : symbol = _ := hsymbol
      rw [Demand.meetAll?_singleton] at hmeet
      rw [matchExpr?, hcode]
      exact hmeet
  case literal value =>
    cases h with
    | literal hcode hvalue =>
      rw [matchExpr?, hcode]
      exact (if_pos hvalue).trans hmeet
  case classRef name =>
    cases h with
    | classRef hcode =>
      rw [matchExpr?, if_pos hcode]
      exact hmeet
  case field receiver name =>
    cases h with
    | field hcode hreceiver =>
      rw [matchExpr?, hcode]
      rw [hcode] at hreceiver
      exact (if_pos rfl).trans (matchExpr?_of_agrees hreceiver hmeet)
    | importedField hcode hsymbol =>
      rw [matchExpr?, hcode]
      exact (if_pos (by simp [isImportedField, hsymbol])).trans hmeet
  case call receiver method args =>
    cases h with
    | call hcode hcalled hdenotes hreceiver hargs =>
      obtain ⟨middle, hds, hes⟩ := Demand.meetAll?_append_eq_some_iff.1 hmeet
      exact (matchExpr?_call_eq_some_iff hcode).2 ⟨_, hcalled, hdenotes, hargs.length_eq,
        .inl ⟨_, _, _, _, middle, rfl, matchExpr?_of_agrees hreceiver hds,
          matchExprs?_of_agreesAll hargs hes⟩⟩
    | importedCall hcode hstatic hcalled hdenotes hargs =>
      exact (matchExpr?_call_eq_some_iff hcode).2 ⟨_, hcalled, hdenotes, hargs.length_eq,
        .inr ⟨_, _, rfl, hstatic, matchExprs?_of_agreesAll hargs hmeet⟩⟩
  case methodRef receiver method =>
    cases h with
    | methodRef hcode hcalled hdenotes hreceiver =>
      exact (matchExpr?_methodRef_eq_some_iff hcode).2
        ⟨_, hcalled, hdenotes, matchExpr?_of_agrees hreceiver hmeet⟩
  case unary op operand =>
    cases h with
    | unary hcode hoperand =>
      rw [matchExpr?, hcode]
      rw [hcode] at hoperand
      exact (if_pos rfl).trans (matchExpr?_of_agrees hoperand hmeet)
  case binary op lhs rhs =>
    cases h with
    | binary hcode hlhs hrhs =>
      obtain ⟨middle, hds, hes⟩ := Demand.meetAll?_append_eq_some_iff.1 hmeet
      rw [matchExpr?, hcode]
      rw [hcode] at hlhs hrhs
      exact (if_pos rfl).trans (Option.bind_eq_some_iff.2
        ⟨middle, matchExpr?_of_agrees hlhs hds, matchExpr?_of_agrees hrhs hes⟩)
  case cast target expr =>
    cases h with
    | cast hcode hexpr =>
      obtain ⟨middle, hfirst, hds⟩ := Option.bind_eq_some_iff.1 hmeet
      obtain ⟨types, htypes, rfl⟩ := Option.map_eq_some_iff.1 hfirst
      rw [matchExpr?, hcode]
      rw [hcode] at hexpr
      exact Option.bind_eq_some_iff.2 ⟨types, htypes, matchExpr?_of_agrees hexpr hds⟩

theorem matchExprs?_of_agreesAll {es : List Expr} {codes : List Node} {parent : Option Node}
    {ds : List Demand} {b b' : Bindings} (h : AgreesAll o es codes parent ds)
    (hmeet : Demand.meetAll? o t ds b = some b') :
    t.matchExprs? o es codes parent b = some b' := by
  match es with
  | [] =>
    cases h
    exact hmeet
  | e :: es =>
    cases h with
    | cons he hrest =>
      obtain ⟨middle, hds, hes⟩ := Demand.meetAll?_append_eq_some_iff.1 hmeet
      exact Option.bind_eq_some_iff.2
        ⟨middle, matchExpr?_of_agrees he hds, matchExprs?_of_agreesAll hrest hes⟩

end

/-- **Matching is agreement, and then meeting what it asks for.** -/
theorem matchExpr?_eq_some_iff {e : Expr} {code : Node} {parent : Option Node} {b b' : Bindings} :
    t.matchExpr? o e code parent b = some b' ↔
      ∃ ds, Agrees o e code parent ds ∧ Demand.meetAll? o t ds b = some b' := by
  constructor
  · exact exists_agrees_of_matchExpr?
  · rintro ⟨ds, hds, hmeet⟩
    exact matchExpr?_of_agrees hds hmeet

/-! ## Statements -/

/-- A statement of a template agrees with a statement of the code. -/
inductive AgreesStmt (o : TypeOracle) : Stmt → Node → List Demand → Prop
  | expr {e : Expr} {code : Node} {info : NodeInfo} {ds : List Demand} :
      Agrees o e code (some (.exprStmt info code)) ds →
      AgreesStmt o (.expr e) (.exprStmt info code) ds
  | retNone {info : NodeInfo} : AgreesStmt o (.ret none) (.ret info none) []
  | ret {e : Expr} {code : Node} {info : NodeInfo} {ds : List Demand} :
      Agrees o e code (some (.ret info (some code))) ds →
      AgreesStmt o (.ret (some e)) (.ret info (some code)) ds
  | localVar {name name' : String} {ty declared : Ty} {info : NodeInfo} :
      AgreesStmt o (.localVar name ty none) (.localVar info name' declared none)
        [.rename name name', .agree ty declared]
  | localInit {name name' : String} {ty declared : Ty} {e : Expr} {code : Node} {info : NodeInfo}
      {ds : List Demand} :
      Agrees o e code (some (.localVar info name' declared (some code))) ds →
      AgreesStmt o (.localVar name ty (some e)) (.localVar info name' declared (some code))
        (.rename name name' :: .agree ty declared :: ds)

/-- Statements of a template agree with statements of the code, one by one. -/
inductive AgreesStmts (o : TypeOracle) : List Stmt → List Node → List Demand → Prop
  | nil {codes : List Node} : AgreesStmts o [] codes []
  | cons {s : Stmt} {stmts : List Stmt} {code : Node} {codes : List Node}
      {ds rest : List Demand} :
      AgreesStmt o s code ds → AgreesStmts o stmts codes rest →
      AgreesStmts o (s :: stmts) (code :: codes) (ds ++ rest)

theorem matchStmt?_eq_some_iff {s : Stmt} {code : Node} {b b' : Bindings} :
    t.matchStmt? o s code b = some b' ↔
      ∃ ds, AgreesStmt o s code ds ∧ Demand.meetAll? o t ds b = some b' := by
  constructor
  · intro h
    unfold matchStmt? at h
    split at h
    · obtain ⟨ds, hds, hmeet⟩ := matchExpr?_eq_some_iff.1 h
      exact ⟨ds, .expr hds, hmeet⟩
    · exact ⟨[], .retNone, h⟩
    · obtain ⟨ds, hds, hmeet⟩ := matchExpr?_eq_some_iff.1 h
      exact ⟨ds, .ret hds, hmeet⟩
    · obtain ⟨renamed, hrename, h⟩ := Option.bind_eq_some_iff.1 h
      obtain ⟨types, htypes, h⟩ := Option.bind_eq_some_iff.1 h
      split at h
      · refine ⟨_, .localVar, ?_⟩
        simpa [Demand.meetAll?, Demand.meet?, hrename, htypes] using h
      · obtain ⟨ds, hds, hmeet⟩ := matchExpr?_eq_some_iff.1 h
        refine ⟨_, .localInit hds, ?_⟩
        simpa [Demand.meetAll?, Demand.meet?, hrename, htypes] using hmeet
      · exact absurd h (by simp)
    · exact absurd h (by simp)
  · rintro ⟨ds, hds, hmeet⟩
    cases hds with
    | expr hds => exact matchExpr?_of_agrees hds hmeet
    | retNone => exact hmeet
    | ret hds => exact matchExpr?_of_agrees hds hmeet
    | localVar =>
      obtain ⟨renamed, hrename, hmeet⟩ := Option.bind_eq_some_iff.1 hmeet
      rw [Demand.meetAll?_singleton] at hmeet
      obtain ⟨types, htypes, rfl⟩ := Option.map_eq_some_iff.1 hmeet
      exact Option.bind_eq_some_iff.2
        ⟨renamed, hrename, Option.bind_eq_some_iff.2 ⟨types, htypes, rfl⟩⟩
    | localInit hds =>
      obtain ⟨renamed, hrename, hmeet⟩ := Option.bind_eq_some_iff.1 hmeet
      obtain ⟨typed, hagree, hmeet⟩ := Option.bind_eq_some_iff.1 hmeet
      obtain ⟨types, htypes, rfl⟩ := Option.map_eq_some_iff.1 hagree
      exact Option.bind_eq_some_iff.2 ⟨renamed, hrename, Option.bind_eq_some_iff.2
        ⟨types, htypes, matchExpr?_of_agrees hds hmeet⟩⟩

theorem matchStmts?_eq_some_iff {stmts : List Stmt} {codes : List Node} {b b' : Bindings} :
    t.matchStmts? o stmts codes b = some b' ↔
      ∃ ds, AgreesStmts o stmts codes ds ∧ Demand.meetAll? o t ds b = some b' := by
  induction stmts generalizing codes b with
  | nil =>
    constructor
    · intro h
      exact ⟨[], .nil, h⟩
    · rintro ⟨ds, hds, hmeet⟩
      cases hds
      exact hmeet
  | cons s stmts ih =>
    cases codes with
    | nil =>
      constructor
      · intro h
        exact absurd h (by simp [matchStmts?])
      · rintro ⟨ds, hds, -⟩
        cases hds
    | cons code codes =>
      rw [matchStmts?, Option.bind_eq_some_iff]
      constructor
      · rintro ⟨middle, hs, hrest⟩
        obtain ⟨ds, hds, hmeet⟩ := matchStmt?_eq_some_iff.1 hs
        obtain ⟨rest, hrest, hmeet'⟩ := ih.1 hrest
        exact ⟨ds ++ rest, .cons hds hrest,
          Demand.meetAll?_append_eq_some_iff.2 ⟨middle, hmeet, hmeet'⟩⟩
      · rintro ⟨ds, hds, hmeet⟩
        cases hds with
        | cons hs hrest =>
          obtain ⟨middle, hds, hes⟩ := Demand.meetAll?_append_eq_some_iff.1 hmeet
          exact ⟨middle, matchStmt?_eq_some_iff.2 ⟨_, hs, hds⟩, ih.2 ⟨_, hrest, hes⟩⟩

/-! ## Instances -/

/-- What a template asks of the type of the whole expression: it is given where
the template's return type is declared, if the expression has a type and the
template returns anything. -/
def resultDemands (t : Template) (code : Node) : List Demand :=
  match code.ty? with
  | some ty => if t.returnType.isNamed Name.void then [] else [.fit t.returnType ty]
  | none => []

theorem meetAll?_resultDemands (code : Node) (b : Bindings) :
    Demand.meetAll? o t (t.resultDemands code) b =
      match code.ty? with
      | some ty =>
        if t.returnType.isNamed Name.void then some b
        else do
          let types ← o.assign? t.returnType ty b.types
          some { b with types }
      | none => some b := by
  unfold resultDemands
  cases code.ty? with
  | none => rfl
  | some ty =>
    dsimp only
    split
    · rfl
    · rw [Demand.meetAll?_singleton, Demand.meet?, Option.map_eq_bind]
      rfl

/-- **The instances of an expression template**: the candidate, if it is an
expression in no parentheses that agrees with the template, and the bindings
that its demands make. -/
theorem mem_instances_expr_iff {e : Expr} (hbody : t.body = .expr e) {code : Node}
    {parent : Option Node} {i : Instance} :
    i ∈ t.instances o code parent ↔
      code.isExpression = true ∧ code.isParen = false ∧
        ∃ ds b, Agrees o e code parent ds ∧
          Demand.meetAll? o t (ds ++ t.resultDemands code) .empty = some b ∧
          i = ⟨code.span, b⟩ := by
  unfold instances
  rw [hbody]
  dsimp only
  split
  · rename_i hcode
    constructor
    · intro h
      exact absurd h (by simp)
    · rintro ⟨hexpr, hparen, -⟩
      exact absurd hcode (by simp [hexpr, hparen])
  · rename_i hcode
    simp only [Bool.or_eq_true, Bool.not_eq_true', not_or, Bool.not_eq_false,
      Bool.not_eq_true] at hcode
    rw [Option.mem_toList, Option.map_eq_some_iff]
    constructor
    · rintro ⟨b, hb, rfl⟩
      obtain ⟨middle, hmatch, hresult⟩ := Option.bind_eq_some_iff.1 hb
      obtain ⟨ds, hds, hmeet⟩ := matchExpr?_eq_some_iff.1 hmatch
      refine ⟨hcode.1, hcode.2, ds, b, hds, ?_, rfl⟩
      refine Demand.meetAll?_append_eq_some_iff.2 ⟨middle, hmeet, ?_⟩
      rw [meetAll?_resultDemands]
      exact hresult
    · rintro ⟨-, -, ds, b, hds, hmeet, rfl⟩
      obtain ⟨middle, hmeet, hresult⟩ := Demand.meetAll?_append_eq_some_iff.1 hmeet
      rw [meetAll?_resultDemands] at hresult
      exact ⟨b, Option.bind_eq_some_iff.2
        ⟨middle, matchExpr?_eq_some_iff.2 ⟨ds, hds, hmeet⟩, hresult⟩, rfl⟩

/-- **The instances of a block template**: the runs of statements of the
candidate that agree with the template, and the bindings that their demands
make. -/
theorem mem_instances_block_iff {stmts : List Stmt} (hbody : t.body = .block stmts) {code : Node}
    {parent : Option Node} {i : Instance} :
    i ∈ t.instances o code parent ↔
      stmts ≠ [] ∧ ∃ info codes, code = .block info codes ∧
        ∃ window ∈ windows stmts.length codes, ∃ ds b, AgreesStmts o stmts window ds ∧
          Demand.meetAll? o t ds .empty = some b ∧ i = ⟨spanOf window, b⟩ := by
  unfold instances
  rw [hbody]
  dsimp only
  split
  · simp
  · rename_i info codes hne
    rw [List.mem_filterMap]
    constructor
    · rintro ⟨window, hwindow, h⟩
      obtain ⟨b, hmatch, rfl⟩ := Option.map_eq_some_iff.1 h
      obtain ⟨ds, hds, hmeet⟩ := matchStmts?_eq_some_iff.1 hmatch
      exact ⟨hne, info, codes, rfl, window, hwindow, ds, b, hds, hmeet, rfl⟩
    · rintro ⟨-, info', codes', hcode, window, hwindow, ds, b, hds, hmeet, rfl⟩
      obtain ⟨-, rfl⟩ := Node.block.inj hcode
      exact ⟨window, hwindow, Option.map_eq_some_iff.2
        ⟨b, matchStmts?_eq_some_iff.2 ⟨ds, hds, hmeet⟩, rfl⟩⟩
  · rename_i hcode
    constructor
    · intro h
      exact absurd h (by simp)
    · rintro ⟨-, info, codes, rfl, -⟩
      exact absurd rfl (hcode info codes)

end Codemod.Template
