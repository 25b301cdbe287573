import Codemod.Finding
import Codemod.Migration.Pair
import Codemod.Scan.Basic
import Codemod.Tree.Walk
/-!
# Call sites of migrated methods

Tests replace methods by doubles and say what the doubles return. When a
method has a migrated counterpart, such a stubbing has to call the counterpart
and to return values of its type. Three shapes of it are recognised:

* `when(mock.m(..)).thenReturn(a).thenReturn(b)`, the values in a chain of
  calls after `when`;
* `doReturn(a).when(mock).m(..)`, the values before it;
* `verify(mock).m(..)`, which has no values.

The method is renamed and its values are converted by the forward rule of the
pair whose type it returns.
-/

namespace Codemod

/-- The names by which stubbing is recognised. -/
structure StubbingConventions where
  /-- The class of the static methods that begin a stubbing. -/
  entryClass : String
  whenMethod : String
  verifyMethod : String
  doReturnMethod : String
  /-- The type whose `when` goes on after `doReturn`. -/
  stubberClass : String
  /-- The methods that supply values after `when`. -/
  chainMethods : List String
  /-- The type of callbacks, which cannot be converted. -/
  callbackType : String
  /-- What the name of a migrated counterpart ends in. -/
  migratedSuffix : String
  deriving DecidableEq, Inhabited

namespace StubbingConventions

/-- The names that Mockito uses. -/
def standard : StubbingConventions where
  entryClass := "org.mockito.Mockito"
  whenMethod := "when"
  verifyMethod := "verify"
  doReturnMethod := "doReturn"
  stubberClass := "org.mockito.stubbing.Stubber"
  chainMethods := ["thenReturn"]
  callbackType := "org.mockito.stubbing.Answer"
  migratedSuffix := "_migrated"

/-- The method begins a stubbing under the name. -/
def isEntry (c : StubbingConventions) (method : MethodSymbol) (name : String) : Bool :=
  method.isStatic && method.owner == c.entryClass && method.name == name

/-- The name of the migrated counterpart. -/
def migratedName (c : StubbingConventions) (method : MethodSymbol) : String :=
  method.name ++ c.migratedSuffix

end StubbingConventions

/-- A stubbing that was recognised. -/
structure CallSite where
  /-- The call of the method that is stubbed. -/
  target : Node
  /-- The values it returns. -/
  arguments : List Node
  span : Span
  /-- The method is renamed and nothing else is done. -/
  renameOnly : Bool

/-- What the migration of call sites goes by. -/
structure CallSiteMigration where
  pairs : List MigrationPair
  oracle : TypeOracle
  /-- The text that the spans of the tree point into. -/
  source : String
  conventions : StubbingConventions

namespace CallSiteMigration

variable (m : CallSiteMigration)

/-- The rule under which mere renamings are reported. -/
def renameRuleName : String := "MigratedMethodRename"

/-! ## Recognising call sites -/

/-- The call of a method that is selected on a node, as `x.m(..)` is for
`x`. -/
def invocation? : List Ancestor → Option Node
  | parent :: grandparent :: _ =>
    match parent.node, grandparent.node with
    | .select .., .call .. => if grandparent.child = 0 then some grandparent.node else none
    | _, _ => none
  | _ => none

/-- The calls of chain methods that follow a call, each selected on the one
before. -/
def chain (methods : List String) : List Ancestor → List Node
  | parent :: grandparent :: rest =>
    match parent.node, grandparent.node with
    | .select _ _ name _, .call .. =>
      if grandparent.child = 0 ∧ methods.contains name then
        grandparent.node :: chain methods rest
      else []
    | _, _ => []
  | _ => []

/-- The arguments of a call. -/
def argumentsOf : Node → List Node
  | .call _ _ args => args
  | _ => []

/-- The node is the call, in parentheses or not. -/
def call? (n : Node) : Option Node :=
  match n.skipParens with
  | .call i callee args => some (.call i callee args)
  | _ => none

/-- The stubbing that begins with a call of `when`. -/
def whenSite? (call : Node) (above : List Ancestor) : Option CallSite := do
  let [stubbed] := argumentsOf call | none
  let target ← call? stubbed
  let chain := chain m.conventions.chainMethods above
  let last ← chain.getLast?
  return ⟨target, chain.flatMap argumentsOf, call.span.hull last.span, false⟩

/-- The method goes on with a stubbing that began with `doReturn`. -/
def isStubberWhen (method : MethodSymbol) : Bool :=
  !method.isStatic && method.name == m.conventions.whenMethod &&
    m.oracle.isSubtype (.plain method.owner) (.plain m.conventions.stubberClass)

/-- The values that a call of `doReturn` is given, when that is what `when` is
selected on. -/
def returnedValues? (callee : Node) : Option (List Node) :=
  match callee with
  | .select _ target _ _ => do
    let returning ← call? target
    let method ← returning.methodSymbol?
    if m.conventions.isEntry method m.conventions.doReturnMethod then
      some (argumentsOf returning)
    else none
  | _ => none

/-- The stubbing that a node is the anchor of. -/
def recognise? (node : Node) (above : List Ancestor) : Option CallSite :=
  match node with
  | .call i callee args => do
    let call := Node.call i callee args
    let method ← call.methodSymbol?
    if m.conventions.isEntry method m.conventions.whenMethod then m.whenSite? call above
    else
      let outer ← invocation? above
      if m.conventions.isEntry method m.conventions.verifyMethod then
        some ⟨outer, [], outer.span, true⟩
      else if m.isStubberWhen method then
        (m.returnedValues? callee).map fun values => ⟨outer, values, outer.span, false⟩
      else none
  | _ => none

/-! ## Conditions -/

/-- The text occurs in the other. -/
def occursIn (part : List Char) : List Char → Bool
  | [] => part.isEmpty
  | c :: rest => part.isPrefixOf (c :: rest) || occursIn part rest

/-- The replacement that the method's declaration gives names a migrated
counterpart. -/
def hasCounterpart (method : MethodSymbol) : Bool :=
  match method.inlineReplacement with
  | some replacement => occursIn m.conventions.migratedSuffix.toList replacement.toList
  | none => false

/-- The node refers to a method or member of the name. -/
def refersTo (name : String) : Node → Bool
  | .select _ _ n _ | .methodRef _ _ n => n == name
  | .ident ⟨_, _, some (.ofMethod _)⟩ n => n == name
  | _ => false

/-- The method around the call site already uses the migrated counterpart. -/
def alreadyMigrated (above : List Ancestor) (migrated : String) : Bool :=
  let isMethod : Node → Bool := fun n =>
    match n with
    | .methodDecl .. => true
    | _ => false
  match (above.map (·.node)).find? isMethod with
  | some method => (method.find? (refersTo migrated)).isSome
  | none => false

/-- The value is the result of a call that makes a callback. -/
def isCallback (argument : Node) : Bool :=
  match argument.skipParens with
  | .call i _ _ =>
    match i.ty with
    | some ty => m.oracle.isSubtype ty (.plain m.conventions.callbackType)
    | none => false
  | _ => false

/-- The first pair that converts from a type. -/
def pair? (returned : Ty) : Option MigrationPair :=
  m.pairs.find? fun pair => m.oracle.accepts pair.typeFrom returned

/-! ## Migrating -/

/-- Where the name of the called method stands. A name without a span of its
own ends where its selection ends. -/
def nameSpan : Node → Span
  | .call _ (.select i _ name span) _ =>
    if span.isEmpty then ⟨i.span.stop - Text.byteCount name, i.span.stop⟩ else span
  | .call _ callee _ => callee.span
  | n => n.span

/-- The fix of one value: it is converted wherever the rule applies in it. -/
def convert (rule : Rule) (argument : Node) : Except RenderError Fix := do
  let scan : Scan := ⟨[rule], m.oracle, m.source, .nowhere⟩
  let found ← scan.findings argument
  return (Finding.selectCompatible found).foldl
    (fun fix f => fix.merge (f.preferredFix?.getD .empty)) .empty

/-- The fixes of all values. -/
def convertAll (rule : Rule) : List Node → Except RenderError Fix
  | [] => .ok .empty
  | argument :: rest => do return (← m.convert rule argument).merge (← convertAll rule rest)

/-- A finding at a call site. -/
def found (rule : String) (site : CallSite) (fix : Fix) : Finding :=
  ⟨rule, site.span, "invocation", .empty, [fix]⟩

/-- The finding at a call site, given the method that is stubbed. -/
def migrateSite (site : CallSite) (method : MethodSymbol) (above : List Ancestor) :
    Except RenderError (Option Finding) :=
  let migrated := m.conventions.migratedName method
  let rename : Edit := ⟨nameSpan site.target, migrated⟩
  if !m.hasCounterpart method then .ok none
  else if site.renameOnly then .ok (some (found renameRuleName site (.ofEdits [rename])))
  else if alreadyMigrated above migrated || site.arguments.any m.isCallback then .ok none
  else
    match m.pair? method.returnType with
    | none => .ok none
    | some pair => do
      let fix := Fix.merge (.ofEdits [rename]) (← m.convertAll pair.forward site.arguments)
      return some (found pair.name site { fix with edits := fix.edits.mergeSort Edit.le })

/-- The finding that a node is the anchor of, given the nodes above it. -/
def migrate (node : Node) (above : List Ancestor) : Except RenderError (Option Finding) :=
  match m.recognise? node above with
  | none => .ok none
  | some site =>
    match site.target.methodSymbol? with
    | none => .ok none
    | some method => m.migrateSite site method above

/-- The findings in a tree, without those whose edits conflict. -/
def findings (root : Node) : Except RenderError (List Finding) := do
  let found ← root.places.mapM fun place => m.migrate place.node place.above
  return Finding.selectCompatible (found.filterMap id)

end CallSiteMigration

end Codemod
