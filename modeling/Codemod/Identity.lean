import Codemod.Finding
import Codemod.Tree.Layout
import Codemod.Tree.Walk
import Codemod.Types.Oracle
/-!
# Identity conversions

Some static methods return their argument unchanged when it already has the
type they convert to. A call of one that is given such an argument may be
replaced by the argument. Boxing is a change, so it is subtyping that counts,
not assignment.
-/

namespace Codemod

/-- Static conversion methods of one class; without names, all of them. -/
structure ConversionMethod where
  owner : String
  names : List String
  deriving DecidableEq, Inhabited

namespace ConversionMethod

/-- The method is one of those conversions. -/
def includes (c : ConversionMethod) (method : MethodSymbol) : Bool :=
  method.isStatic && method.owner == c.owner &&
    (c.names.isEmpty || c.names.contains method.name)

/-- The conversions known from the start. -/
def standard : List ConversionMethod :=
  [⟨"java.lang.Byte", ["valueOf"]⟩, ⟨"java.lang.Character", ["valueOf"]⟩,
    ⟨"java.lang.Double", ["valueOf"]⟩, ⟨"java.lang.Float", ["valueOf"]⟩,
    ⟨"java.lang.Integer", ["valueOf"]⟩, ⟨"java.lang.String", ["valueOf"]⟩,
    ⟨"reactor.adapter.rxjava.RxJava2Adapter", []⟩,
    ⟨"reactor.core.publisher.Flux", ["from", "concat"]⟩,
    ⟨"reactor.core.publisher.Mono", ["from", "fromDirect"]⟩]

end ConversionMethod

/-- What the search for identity conversions goes by. -/
structure IdentityCheck where
  methods : List ConversionMethod
  oracle : TypeOracle
  /-- The text that the spans of the tree point into. -/
  source : String

namespace IdentityCheck

variable (c : IdentityCheck)

/-- The name under which conversions are reported. -/
def ruleName : String := "IdentityConversion"

/-- The finding at a node, if it is a call that changes nothing. The type
converted to is that of the call, or else the one its method returns. -/
def finding? (node : Node) : Option Finding :=
  match node with
  | .call i callee [argument] => do
    let call := Node.call i callee [argument]
    let method ← call.methodSymbol?
    if !c.methods.any (·.includes method) then none
    let source ← argument.ty?
    if !c.oracle.isSubtype source (i.ty.getD method.returnType) then none
    let text := (argument.span.slice? c.source).getD argument.print
    return ⟨ruleName, i.span, call.kindName, .empty, [.ofEdits [⟨i.span, text⟩]]⟩
  | _ => none

/-- The findings in a tree, in the order of the walk. -/
def findings (root : Node) : List Finding := root.preorder.filterMap c.finding?

end IdentityCheck

end Codemod
