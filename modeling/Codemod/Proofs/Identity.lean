import Codemod.Identity
import Codemod.Proofs.Tree.Exchange
import Codemod.Template.Rendering
import Codemod.Tree.Fresh
import Codemod.Types.Hierarchy
/-!
# Fixes of identity conversions

The fix of an identity conversion is one edit that puts the argument of a call in
the place of the call. It puts the text of the argument there as it is, and never
in parentheses. So it exchanges the call for its argument in the tree, and that
leaves every node binding as tightly as its position requires exactly where the
argument needs no parentheses (`IdentityCheck.exchanges_of_mem_findings`). Where
it needs them, the text reads as another tree
(`IdentityCheck.exists_finding_looser`).
-/

namespace Codemod.IdentityCheck

open Rendering

variable {c : IdentityCheck} {node tree : Node} {f : Finding} {callee : Nat}

theorem parenthesize_eq_self_iff {precedence required : Nat} {text : String} :
    parenthesize precedence required text = text ↔ required ≤ precedence := by
  unfold parenthesize
  split
  · rename_i hlt
    refine ⟨fun htext => ?_, fun hle => absurd hlt (Nat.not_lt.2 hle)⟩
    have hbytes := congrArg Text.byteCount htext
    have hopen : Text.byteCount "(" = 1 := by decide
    rw [Text.byteCount_append, Text.byteCount_append, hopen] at hbytes
    omega
  · rename_i hge
    exact ⟨fun _ => Nat.not_lt.1 hge, fun _ => rfl⟩

/-- **What is found at a node**: a call of a conversion whose one argument has the
type converted to already. -/
theorem finding?_eq_some_iff :
    c.finding? node = some f ↔ ∃ info function argument method source,
      node = .call info function [argument] ∧ node.methodSymbol? = some method ∧
        c.methods.any (·.includes method) = true ∧ argument.ty? = some source ∧
        c.oracle.isSubtype source (info.ty.getD method.returnType) = true ∧
        f = ⟨ruleName, node.span, node.kindName, .empty,
          [.ofEdits [⟨node.span, (argument.span.slice? c.source).getD argument.print⟩]]⟩ := by
  constructor
  · intro h
    unfold finding? at h
    split at h
    · rename_i info function argument
      obtain ⟨method, hmethod, h⟩ := Option.bind_eq_some_iff.1 h
      dsimp only at h
      split at h
      · exact absurd h nofun
      rename_i hincludes
      obtain ⟨source, hty, h⟩ := Option.bind_eq_some_iff.1 h
      split at h
      · exact absurd h nofun
      rename_i hsub
      exact ⟨info, function, argument, method, source, rfl, hmethod, by simpa using hincludes, hty,
        by simpa using hsub, (Option.some.inj h).symm⟩
    · exact absurd h nofun
  · rintro ⟨info, function, argument, method, source, rfl, hmethod, hincludes, hty, hsub, rfl⟩
    rw [finding?]
    refine Option.bind_eq_some_iff.2 ⟨method, hmethod, ?_⟩
    dsimp only
    rw [if_neg (by simp [hincludes])]
    refine Option.bind_eq_some_iff.2 ⟨source, hty, ?_⟩
    rw [if_neg (by simp [hsub])]
    rfl

/-- A finding is at the place of a call that it was found at. -/
theorem exists_place_of_mem_findings {root : Node} (hf : f ∈ c.findings root) :
    ∃ place ∈ root.places, c.finding? place.node = some f := by
  obtain ⟨node, hnode, hfound⟩ := List.mem_filterMap.1 hf
  obtain ⟨place, hplace, rfl⟩ := Node.exists_place_of_mem_preorder hnode
  exact ⟨place, hplace, hfound⟩

/-- **The fix of an identity conversion exchanges the call for its argument**, the
text of which it leaves without parentheses. That is the text the argument must
have there, and all nodes of the tree still bind as tightly as their positions
require, if and only if the argument binds as tightly as the position of the
call requires. -/
theorem exchanges_of_mem_findings (hsource : c.source = tree.print)
    (hbinds : tree.laidOut.BindsTightly callee) (hf : f ∈ c.findings tree.laidOut) :
    ∃ place ∈ tree.laidOut.places, ∃ info function argument,
      place.node = .call info function [argument] ∧
      f.edits = [⟨place.node.span, argument.text place.nesting⟩] ∧
      (argument.text place.nesting = parenthesize argument.precedence (place.required callee)
        (argument.text place.nesting) ↔ place.required callee ≤ argument.precedence) ∧
      ((place.replace argument).BindsTightly callee ↔
        place.required callee ≤ argument.precedence) ∧
      (tree.IsWritten → ∃ script, EditScript.compose [f] tree.print = .ok script ∧
        script.apply tree.print = (place.replace argument).print) := by
  obtain ⟨place, hplace, hfound⟩ := exists_place_of_mem_findings hf
  obtain ⟨info, function, argument, method, source, hcall, -, -, -, -, hfinding⟩ :=
    finding?_eq_some_iff.1 hfound
  have hstands := Node.stands_of_mem_places hplace
  have hchild : argument ∈ place.node.children := by
    rw [hcall]
    exact List.mem_cons_of_mem _ List.mem_cons_self
  have hdepth : place.node.childDepth place.nesting = place.nesting := by
    rw [hcall]
    rfl
  -- The argument is an expression of the tree, and so its text is its print there.
  have htext : argument.span.slice? c.source = some (argument.text place.nesting) := by
    have hslice := ((Node.placedIn_of_stands hstands).child hchild).slice?.2
    rwa [hdepth, ← hsource] at hslice
  have hedits : f.edits = [⟨place.node.span, argument.text place.nesting⟩] := by
    rw [hfinding, htext]
    rfl
  have hparen : place.node.isParen = true → argument.isParen = true := by
    rw [hcall]
    nofun
  have hargument : argument.BindsTightly callee :=
    (hbinds.of_under (Node.under_of_mem_places hplace)).child hchild
  refine ⟨place, hplace, info, function, argument, hcall, hedits, ?_, ?_, fun htree =>
    Node.exists_script_of_replace htree hplace hparen hedits⟩
  · rw [eq_comm, parenthesize_eq_self_iff]
  · rw [Node.bindsTightly_replace_iff hbinds hplace, and_iff_right hargument]

/-! ## The length of a text -/

/-- The sum `a + b` of two texts. -/
def joinedTexts : Node := (Fresh.binary .add (Fresh.ident "a") (Fresh.ident "b")).typed
  (.plain "java.lang.String")

/-- The method `String.valueOf`, which turns values into texts. -/
def valueOf : MethodSymbol where
  owner := "java.lang.String"
  name := "valueOf"
  isStatic := true
  returnType := .plain "java.lang.String"
  thrown := []
  inlineReplacement := none

/-- The call `String.valueOf(a + b)`, which changes nothing. -/
def convertedTexts : Node :=
  Fresh.call (Fresh.select (Fresh.classRef "java.lang.String") "valueOf") valueOf [joinedTexts]

/-- The call `String.valueOf(a + b).length()`. -/
def lengthOfConverted : Node :=
  Fresh.call (Fresh.select convertedTexts "length")
    { valueOf with name := "length", isStatic := false, returnType := .plain "int" } []

/-- The search for the standard conversions in a tree that lies in its print. -/
def standardCheck (tree : Node) : IdentityCheck :=
  ⟨ConversionMethod.standard, Hierarchy.javaLang.oracle, tree.print⟩

/-- The finding at `String.valueOf(a + b)`. -/
def bareSum : Finding :=
  ⟨ruleName, ⟨0, 21⟩, "invocation", .empty, [.ofEdits [⟨⟨0, 21⟩, "a + b"⟩]]⟩

theorem finding?_convertedTexts :
    (standardCheck lengthOfConverted).finding? (convertedTexts.place 0 0) = some bareSum := by
  rfl

theorem bareSum_mem_findings :
    bareSum ∈ (standardCheck lengthOfConverted).findings lengthOfConverted.laidOut := by
  have hroot : lengthOfConverted.laidOut.Stands 0 lengthOfConverted.laidOut := .root
  have hcall := (hroot.child List.mem_cons_self).child List.mem_cons_self
  exact List.mem_filterMap.2 ⟨_, hcall.mem_preorder, finding?_convertedTexts⟩

theorem bindsTightly_lengthOfConverted :
    lengthOfConverted.laidOut.BindsTightly Precedence.primary := by
  have hleaf {n : Node} (h : n.children = []) : n.BindsTightly Precedence.primary :=
    Node.bindsTightly_of_children_eq_nil h
  have hsum : (joinedTexts.place 0 15).BindsTightly Precedence.primary :=
    Node.bindsTightly_binary (hleaf rfl) (hleaf rfl) (by decide) (by decide)
  have hconverted : (convertedTexts.place 0 0).BindsTightly Precedence.primary := by
    refine Node.bindsTightly_iff.2 ⟨fun i c hc => ?_, List.forall_mem_cons.2
      ⟨Node.bindsTightly_of_child rfl (hleaf rfl) (by decide), List.forall_mem_singleton.2 hsum⟩⟩
    match i, hc with
    | 0, hc => exact Option.some.inj hc ▸ by decide
    | i + 1, hc => exact Nat.zero_le _
  exact Node.bindsTightly_of_child rfl
    (Node.bindsTightly_of_child rfl hconverted (by decide)) (by decide)

theorem isWritten_lengthOfConverted : lengthOfConverted.IsWritten := by
  have hleaf {info : NodeInfo} {name : String} (h : name ≠ "") : (Node.ident info name).IsWritten :=
    Node.isWritten_iff.2 ⟨h, nofun⟩
  have hsum : joinedTexts.IsWritten := Node.isWritten_iff.2 ⟨trivial, List.forall_mem_cons.2
    ⟨hleaf (by decide), List.forall_mem_singleton.2 (hleaf (by decide))⟩⟩
  have hconverted : convertedTexts.IsWritten := by
    refine Node.isWritten_iff.2 ⟨trivial, List.forall_mem_cons.2 ⟨?_,
      List.forall_mem_singleton.2 hsum⟩⟩
    exact Node.isWritten_iff.2 ⟨trivial, List.forall_mem_singleton.2 (hleaf (by decide))⟩
  exact Node.isWritten_iff.2 ⟨trivial, List.forall_mem_singleton.2
    (Node.isWritten_iff.2 ⟨trivial, List.forall_mem_singleton.2 hconverted⟩)⟩

/-- The conversion in `String.valueOf(a + b).length()` is exchanged for the sum,
as an edit of the text. -/
theorem exchanges_bareSum :
    lengthOfConverted.laidOut.BindsTightly Precedence.primary ∧
      bareSum ∈ (standardCheck lengthOfConverted).findings lengthOfConverted.laidOut ∧
      ∃ place ∈ lengthOfConverted.laidOut.places, ∃ argument : Node,
        bareSum.edits = [⟨place.node.span, argument.text place.nesting⟩] ∧
        ∃ script, EditScript.compose [bareSum] lengthOfConverted.print = .ok script ∧
          script.apply lengthOfConverted.print = (place.replace argument).print := by
  refine ⟨bindsTightly_lengthOfConverted, bareSum_mem_findings, ?_⟩
  obtain ⟨place, hplace, info, function, argument, -, hedits, -, -, happly⟩ :=
    exchanges_of_mem_findings rfl bindsTightly_lengthOfConverted bareSum_mem_findings
  exact ⟨place, hplace, argument, hedits, happly isWritten_lengthOfConverted⟩

/-- **A fix can leave out parentheses that its place requires.** The receiver of a
call is exchanged for a sum, and `a + b.length()` is read as another tree than the
one that the sum was put in. -/
theorem exists_finding_looser :
    ∃ place ∈ lengthOfConverted.laidOut.places, ∃ info function argument,
      place.node = .call info function [argument] ∧
      lengthOfConverted.laidOut.BindsTightly Precedence.primary ∧
      bareSum ∈ (standardCheck lengthOfConverted).findings lengthOfConverted.laidOut ∧
      bareSum.edits = [⟨place.node.span, "a + b"⟩] ∧
      argument.precedence < place.required Precedence.primary ∧
      parenthesize argument.precedence (place.required Precedence.primary)
        (argument.text place.nesting) = "(a + b)" := by
  have hroot : lengthOfConverted.laidOut.Under lengthOfConverted.laidOut [] := .root
  have hplace := (hroot.child (i := 0) rfl).child (i := 0) rfl
  refine ⟨_, hplace.mem_places, _, _, joinedTexts.place 0 15, rfl, bindsTightly_lengthOfConverted,
    bareSum_mem_findings, ?_, ?_, ?_⟩
  · decide +kernel
  · decide +kernel
  · decide +kernel

end Codemod.IdentityCheck
