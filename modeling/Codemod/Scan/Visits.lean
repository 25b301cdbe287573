import Codemod.Tree.Basic
/-!
# Scanned nodes

A scan meets the nodes of a tree in the order of the walk, except that the
parentheses a condition stands in are taken as part of the statement: the
condition is met directly below it.
-/

namespace Codemod

/-- A node that a scan meets. -/
structure Visit where
  node : Node
  /-- The nodes around it, its parent first. -/
  ancestors : List Node

namespace Node

/-- The children that a scan goes on to. -/
def scanChildren : Node → List Node
  | .ifElse _ cond thenBranch elseBranch => cond.stripParen :: thenBranch :: elseBranch.toList
  | .whileLoop _ cond body => [cond.stripParen, body]
  | .doWhile _ body cond => [body, cond.stripParen]
  | .synchronized _ lock body => [lock.stripParen, body]
  | n => n.children

theorem sizeOf_lt_of_mem_scanChildren {c n : Node} (h : c ∈ n.scanChildren) :
    sizeOf c < sizeOf n := by
  cases n
  case ifElse _ cond thenBranch elseBranch =>
    have := sizeOf_stripParen_le cond
    simp only [scanChildren, List.mem_cons, Option.mem_toList] at h
    rcases h with rfl | rfl | rfl <;>
      simp only [ifElse.sizeOf_spec, Option.some.sizeOf_spec] <;>
      omega
  case whileLoop _ cond body =>
    have := sizeOf_stripParen_le cond
    simp only [scanChildren, List.mem_cons, List.not_mem_nil, or_false] at h
    rcases h with rfl | rfl <;> simp only [whileLoop.sizeOf_spec] <;> omega
  case doWhile _ body cond =>
    have := sizeOf_stripParen_le cond
    simp only [scanChildren, List.mem_cons, List.not_mem_nil, or_false] at h
    rcases h with rfl | rfl <;> simp only [doWhile.sizeOf_spec] <;> omega
  case synchronized _ lock body =>
    have := sizeOf_stripParen_le lock
    simp only [scanChildren, List.mem_cons, List.not_mem_nil, or_false] at h
    rcases h with rfl | rfl <;> simp only [synchronized.sizeOf_spec] <;> omega
  all_goals exact sizeOf_lt_of_mem_children h

/-- The nodes that a scan meets below some ancestors. -/
def scanVisitsUnder (ancestors : List Node) (n : Node) : List Visit :=
  ⟨n, ancestors⟩ ::
    n.scanChildren.attach.flatMap fun ⟨c, _⟩ => scanVisitsUnder (n :: ancestors) c
termination_by n
decreasing_by exact sizeOf_lt_of_mem_scanChildren ‹_›

/-- The nodes that a scan meets, in order. -/
def scanVisits (n : Node) : List Visit := scanVisitsUnder [] n

theorem scanVisitsUnder_eq (ancestors : List Node) (n : Node) :
    scanVisitsUnder ancestors n =
      ⟨n, ancestors⟩ :: n.scanChildren.flatMap (scanVisitsUnder (n :: ancestors)) := by
  rw [scanVisitsUnder]
  simp [List.flatMap_subtype, List.unattach_attach]

end Node

end Codemod
