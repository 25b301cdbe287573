import Codemod.Tree.Basic
/-!
# Shapes

Two expressions have the same shape when they are spelled alike up to grouping
parentheses: spans, types and symbols do not count, and neither do parentheses
at any depth. Statements and declarations have no shape.
-/

namespace Codemod.Node

mutual

/-- The expressions agree up to grouping parentheses, and up to what nodes
carry. -/
def sameShape : Node → Node → Bool
  | .paren _ a, other => sameShape a other
  | .ident _ a, other =>
    match other.skipParens with
    | .ident _ b => a == b
    | _ => false
  | .literal _ a, other =>
    match other.skipParens with
    | .literal _ b => a == b
    | _ => false
  | .select _ s a _, other =>
    match other.skipParens with
    | .select _ t b _ => a == b && sameShape s t
    | _ => false
  | .methodRef _ s a, other =>
    match other.skipParens with
    | .methodRef _ t b => a == b && sameShape s t
    | _ => false
  | .call _ c as, other =>
    match other.skipParens with
    | .call _ d bs => sameShape c d && sameShapes as bs
    | _ => false
  | .unary _ o a, other =>
    match other.skipParens with
    | .unary _ p b => o == p && sameShape a b
    | _ => false
  | .binary _ o a b, other =>
    match other.skipParens with
    | .binary _ p c d => o == p && sameShape a c && sameShape b d
    | _ => false
  | .cast _ s a, other =>
    match other.skipParens with
    | .cast _ t b => s == t && sameShape a b
    | _ => false
  | _, _ => false
termination_by structural a => a

/-- There are as many expressions, of the same shapes. -/
def sameShapes : List Node → List Node → Bool
  | [], [] => true
  | a :: as, b :: bs => sameShape a b && sameShapes as bs
  | _, _ => false
termination_by structural as => as

end

end Codemod.Node
