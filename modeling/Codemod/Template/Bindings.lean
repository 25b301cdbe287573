import Codemod.Tree.Basic
/-!
# Bindings

What the names of a template stand for in a place that matches it: its
placeholders for expressions, its locals for locals of the code, and its type
variables for types. Two locals of a template never stand for one local of the
code.
-/

namespace Codemod

/-- An expression bound to a placeholder, and the type it had. -/
structure Bound where
  node : Node
  ty : Ty
  deriving BEq, Inhabited

/-- What the names of a template stand for. -/
structure Bindings where
  /-- The expressions that placeholders stand for. -/
  exprs : Dict Bound
  /-- The locals of the code that locals of the template stand for. -/
  locals : Dict String
  /-- The types that type variables stand for. -/
  types : Dict Ty
  deriving BEq, Inhabited

namespace Bindings

/-- No name stands for anything yet. -/
def empty : Bindings := ⟨∅, ∅, ∅⟩

/-- The expression that a placeholder stands for. -/
def get? (b : Bindings) (placeholder : String) : Option Bound := b.exprs.get? placeholder

/-- The placeholders that stand for something, sorted. -/
def names (b : Bindings) : List String := b.exprs.keys

/-- Lets a placeholder stand for an expression. -/
def bindExpr (b : Bindings) (placeholder : String) (bound : Bound) : Bindings :=
  { b with exprs := b.exprs.insert placeholder bound }

/-- Lets a local of the template stand for a local of the code, unless it
already stands for another, or the other already stands for it. -/
def bindLocal? (b : Bindings) (template code : String) : Option Bindings :=
  match b.locals.get? template with
  | some bound => if bound = code then some b else none
  | none =>
    if b.locals.values.contains code then none
    else some { b with locals := b.locals.insert template code }

end Bindings

end Codemod
