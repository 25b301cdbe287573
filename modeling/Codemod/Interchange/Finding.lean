import Codemod.Finding
import Codemod.Interchange.Tree
/-!
# Findings as JSON

The written forms of bindings, edits, fixes and findings, to read from
messages and to write.
-/

namespace Codemod.Interchange

/-- What a placeholder stands for: a node and its type. -/
def bound? : Reader Bound := fun j => do
  let [code, type] ← fields? ["node", "ty"] j | none
  return ⟨← required (node? .message) code, ← required (ty? .message) type⟩

/-- What a placeholder stands for, written. -/
def boundExpr (float : Double → Json) (b : Bound) : Json :=
  .obj [("node", node float b.node), ("ty", ty b.ty)]

/-- What placeholders, locals and type variables stand for. -/
def bindings? : Reader Bindings := fun j => do
  let [exprs, locals, types] ← fields? ["exprs", "locals", "types"] j | none
  return ⟨← required (dict? bound?) exprs, ← required (dict? text?) locals,
    ← required (dict? (ty? .message)) types⟩

/-- Bindings, written. -/
def bindings (float : Double → Json) (b : Bindings) : Json :=
  .obj [("exprs", dict (boundExpr float) b.exprs), ("locals", dict .str b.locals),
    ("types", dict ty b.types)]

/-- An edit. -/
def edit? : Reader Edit := fun j => do
  let [place, replacement] ← fields? ["span", "replacement"] j | none
  return ⟨← required span? place, ← required text? replacement⟩

/-- An edit, written. -/
def edit (e : Edit) : Json := .obj [("span", span e.span), ("replacement", .str e.replacement)]

/-- A set of names, in any order. -/
def names? : Reader NameSet := fun j => (list? text? j).map NameSet.ofList

/-- A set of names, ascending. -/
def names (s : NameSet) : Json := texts s.toList

/-- A fix. -/
def fix? : Reader Fix := fun j => do
  let [edits, imports] ← fields? ["edits", "imports"] j | none
  return ⟨← required (list? edit?) edits, ← required names? imports⟩

/-- A fix, written. -/
def fix (f : Fix) : Json := .obj [("edits", list edit f.edits), ("imports", names f.imports)]

/-- A finding. -/
def finding? : Reader Finding := fun j => do
  let [rule, place, nodeKind, bound, fixes] ←
    fields? ["rule", "span", "node_kind", "bindings", "fixes"] j | none
  return {
    rule := ← required text? rule
    span := ← required span? place
    nodeKind := ← required text? nodeKind
    bindings := ← required bindings? bound
    fixes := ← required (list? fix?) fixes }

/-- A finding, written. -/
def finding (float : Double → Json) (f : Finding) : Json :=
  .obj [("rule", .str f.rule), ("span", span f.span), ("node_kind", .str f.nodeKind),
    ("bindings", bindings float f.bindings), ("fixes", list fix f.fixes)]

end Codemod.Interchange
