import Codemod.Tree.Basic
/-!
# Walks

A walk meets every node of a tree before the nodes below it, and children in
source order. Positions in the walk are numbered from zero; they tell apart
nodes that look alike. A `Place` shows a node together with the way to it, so
that where a node stands is known wherever the node is.
-/

namespace Codemod

/-- A node on the way to another, and which of its children the way goes
through. -/
structure Ancestor where
  node : Node
  child : Nat

/-- A node in its tree. -/
structure Place where
  node : Node
  /-- The nodes around it, its parent first. -/
  above : List Ancestor

namespace Place

/-- The nodes around, the root first. -/
def path (p : Place) : List Node := (p.above.map (·.node)).reverse

end Place

namespace Node

/-- The node and all nodes below it, in the order of the walk. -/
def preorder (n : Node) : List Node :=
  n :: n.children.attach.flatMap fun ⟨c, _⟩ => preorder c
termination_by n
decreasing_by exact sizeOf_lt_of_mem_children ‹_›

theorem preorder_eq (n : Node) : n.preorder = n :: n.children.flatMap preorder := by
  rw [preorder]
  simp [List.flatMap_subtype, List.unattach_attach]

/-- The places of a tree that stands below some ancestors. -/
def placesUnder (above : List Ancestor) (n : Node) : List Place :=
  ⟨n, above⟩ :: n.children.attach.zipIdx.flatMap fun (⟨c, _⟩, i) =>
    placesUnder (⟨n, i⟩ :: above) c
termination_by n
decreasing_by exact sizeOf_lt_of_mem_children ‹_›

/-- The places of a tree, in the order of the walk. -/
def places (n : Node) : List Place := placesUnder [] n

theorem placesUnder_eq (above : List Ancestor) (n : Node) :
    placesUnder above n =
      ⟨n, above⟩ :: n.children.zipIdx.flatMap fun (c, i) => placesUnder (⟨n, i⟩ :: above) c := by
  rw [placesUnder]
  conv => rhs; rw [← List.attach_map_subtype_val n.children, List.zipIdx_map, List.flatMap_map]
  rfl

/-- The number of nodes in the tree. -/
def size (n : Node) : Nat := n.preorder.length

/-- The positions of the children of a node at a position. Each is as far
after the one before as that has nodes. -/
def childPositions (position : Nat) (n : Node) : List Nat :=
  positionsFrom (position + 1) n.children
where
  positionsFrom (position : Nat) : List Node → List Nat
    | [] => []
    | c :: rest => position :: positionsFrom (position + c.size) rest

/-- The positions of the nodes around the one at a position, the root first:
those whose trees begin before it and do not end before it. -/
def pathTo? (position : Nat) (n : Node) : Option (List Nat) :=
  if position < n.size then
    some ((n.preorder.zipIdx.filter fun (m, i) => i < position && position < i + m.size).map (·.2))
  else none

/-- The positions on the walk of the nodes that a test holds of. -/
def positionsOf (test : Node → Bool) (n : Node) : List Nat :=
  (n.preorder.zipIdx.filter fun (m, _) => test m).map (·.2)

/-- The first node on the walk that the test holds of. -/
def find? (test : Node → Bool) (n : Node) : Option Node := n.preorder.find? test

end Node

end Codemod
