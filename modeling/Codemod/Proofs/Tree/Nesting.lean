import Codemod.Proofs.Tree.Shape
import Codemod.Proofs.Tree.Standing
/-!
# Nested spans

Trees that were read from a text have spans that nest: no span is reversed, and
a node spans what its children span (`Node.SpansNest`). The spans of a laid out
tree do (`Node.spansNest_laidOut`). What a walk or a scan meets stands in the
tree with the nodes around it, and so its span lies within theirs. How deep it
stands is how many of these are blocks and class bodies
(`Node.stands_of_mem_places`).
-/

namespace Codemod

/-- Within a span, only the span itself is as long. -/
theorem Span.eq_of_length_le {s t : Span} (hs : s.start ≤ s.stop) (ht : t.start ≤ t.stop)
    (hstart : s.start ≤ t.start) (hstop : t.stop ≤ s.stop) (hlength : s.length ≤ t.length) :
    t = s := by
  cases s
  cases t
  simp only [length, Span.mk.injEq] at *
  omega

/-- The node prints its children one level deeper than it stands. -/
def Node.indents : Node → Bool
  | .block .. | .classDecl .. => true
  | _ => false

/-- How deep the place is: how many blocks and class bodies are around it. -/
def Place.nesting (place : Place) : Nat := place.above.countP fun a => a.node.indents

namespace Node

variable {root c n : Node} {depth : Nat}

/-! ## Nesting -/

/-- No span is reversed, and each contains those of the children. -/
def SpansNest (n : Node) : Prop :=
  ∀ m ∈ n.preorder, m.span.start ≤ m.span.stop ∧ ∀ c ∈ m.children, m.span.contains c.span = true

theorem spansNest_iff :
    n.SpansNest ↔ n.span.start ≤ n.span.stop ∧
      ∀ c ∈ n.children, n.span.contains c.span = true ∧ c.SpansNest := by
  unfold SpansNest
  rw [preorder_eq, List.forall_mem_cons, List.forall_mem_flatMap, and_assoc]
  refine and_congr_right fun _ => ⟨fun h c hc => ⟨h.1 c hc, h.2 c hc⟩, fun h => ?_⟩
  exact ⟨fun c hc => (h c hc).1, fun c hc => (h c hc).2⟩

theorem SpansNest.start_le_stop (h : n.SpansNest) : n.span.start ≤ n.span.stop :=
  (spansNest_iff.1 h).1

theorem SpansNest.span_child (h : n.SpansNest) (hc : c ∈ n.children) :
    n.span.start ≤ c.span.start ∧ c.span.stop ≤ n.span.stop := by
  have hcontains := ((spansNest_iff.1 h).2 c hc).1
  rwa [Span.contains, Bool.and_eq_true, decide_eq_true_eq, decide_eq_true_eq] at hcontains

theorem SpansNest.child (h : n.SpansNest) (hc : c ∈ n.children) : c.SpansNest :=
  ((spansNest_iff.1 h).2 c hc).2

theorem SpansNest.of_stands (hroot : root.SpansNest) (h : root.Stands depth n) : n.SpansNest := by
  induction h with
  | root => exact hroot
  | child _ hc ih => exact ih.child hc

/-- **What stands in a tree lies within its span.** -/
theorem SpansNest.within (hroot : root.SpansNest) (h : root.Stands depth n) :
    root.span.start ≤ n.span.start ∧ n.span.stop ≤ root.span.stop := by
  induction h with
  | root => exact ⟨Nat.le_refl _, Nat.le_refl _⟩
  | child hn hc ih =>
    have hpart := (hroot.of_stands hn).span_child hc
    exact ⟨Nat.le_trans ih.1 hpart.1, Nat.le_trans hpart.2 ih.2⟩

/-- Within a tree, nothing is as long as the tree but what spans all of it. -/
theorem SpansNest.span_eq_of_length_le (hroot : root.SpansNest) (h : root.Stands depth n)
    (hlength : root.span.length ≤ n.span.length) : n.span = root.span := by
  have hwithin := hroot.within h
  exact Span.eq_of_length_le hroot.start_le_stop (hroot.of_stands h).start_le_stop hwithin.1
    hwithin.2 hlength

theorem PlacedIn.spansNest {source : String} (h : PlacedIn source depth n) : n.SpansNest := by
  induction n using inductionOnChildren generalizing depth with
  | h n ih =>
    refine spansNest_iff.2 ⟨h.slice?.1, fun c hc => ⟨?_, ih c hc (h.child hc)⟩⟩
    have hpart := h.span_child hc
    rw [Span.contains, Bool.and_eq_true, decide_eq_true_eq, decide_eq_true_eq]
    exact ⟨hpart.1, hpart.2.1⟩

/-- **The spans of a laid out tree nest.** -/
theorem spansNest_laidOut (tree : Node) : tree.laidOut.SpansNest :=
  (placedIn_of_stands .root).spansNest

/-! ## Places -/

theorem placesUnder_ident (above : List Ancestor) (info : NodeInfo) (name : String) :
    placesUnder above (.ident info name) = [⟨.ident info name, above⟩] := by
  rw [placesUnder_eq]
  rfl

theorem placesUnder_select (above : List Ancestor) (info : NodeInfo) (target : Node)
    (name : String) (span : Span) :
    placesUnder above (.select info target name span) = ⟨.select info target name span, above⟩ ::
      placesUnder (⟨.select info target name span, 0⟩ :: above) target := by
  rw [placesUnder_eq]
  exact congrArg (_ :: ·) (List.append_nil _)

theorem placesUnder_call (above : List Ancestor) (info : NodeInfo) (callee : Node)
    (args : List Node) :
    placesUnder above (.call info callee args) = ⟨.call info callee args, above⟩ ::
      (placesUnder (⟨.call info callee args, 0⟩ :: above) callee ++
        (args.zipIdx 1).flatMap fun (c, i) =>
          placesUnder (⟨.call info callee args, i⟩ :: above) c) := by
  rw [placesUnder_eq]
  rfl

/-- The ancestors lead down to a node of the tree, each by the child it names. -/
inductive Under (root : Node) : Node → List Ancestor → Prop
  | root : Under root root []
  | child {n c : Node} {above : List Ancestor} {i : Nat} :
      Under root n above → n.children[i]? = some c → Under root c (⟨n, i⟩ :: above)

/-- **What is above a place leads down to it.** -/
theorem under_of_mem_places {place : Place} (h : place ∈ root.places) :
    root.Under place.node place.above := by
  have hunder : ∀ (n : Node) (above : List Ancestor), root.Under n above →
      place ∈ n.placesUnder above → root.Under place.node place.above := by
    intro n
    induction n using inductionOnChildren with
    | h n ih =>
      intro above hn hplace
      rw [placesUnder_eq] at hplace
      rcases List.mem_cons.1 hplace with rfl | hplace
      · exact hn
      · obtain ⟨⟨c, i⟩, hci, hplace⟩ := List.mem_flatMap.1 hplace
        have hc : c ∈ n.children := List.fst_mem_of_mem_zipIdx hci
        exact ih c hc _ (.child hn (List.mk_mem_zipIdx_iff_getElem?.1 hci)) hplace
  exact hunder root [] .root h

/-- A place is as deep as the children of its parent are. -/
theorem nesting_child (c : Node) (above : List Ancestor) (i : Nat) :
    (Place.mk c (⟨n, i⟩ :: above)).nesting = n.childDepth (Place.mk n above).nesting := by
  rw [Place.nesting, List.countP_cons, Place.nesting]
  cases n <;> rfl

/-- **A node stands as deep as the nodes above it indent.** -/
theorem Under.stands {above : List Ancestor} (h : root.Under n above) :
    root.Stands (Place.mk n above).nesting n := by
  induction h with
  | root => exact .root
  | child _ hc ih =>
    rw [nesting_child]
    exact ih.child (List.mem_of_getElem? hc)

theorem Under.exists_stands {above : List Ancestor} (h : root.Under n above) :
    ∃ depth, root.Stands depth n :=
  ⟨_, h.stands⟩

theorem Under.exists_stands_of_mem {above : List Ancestor} (h : root.Under n above) :
    ∀ ancestor ∈ above, ∃ depth, root.Stands depth ancestor.node := by
  induction h with
  | root => nofun
  | child hn _ ih => exact List.forall_mem_cons.2 ⟨hn.exists_stands, ih⟩

/-- **A place of a tree stands at its nesting depth.** -/
theorem stands_of_mem_places {place : Place} (h : place ∈ root.places) :
    root.Stands place.nesting place.node :=
  (under_of_mem_places h).stands

/-- **A place of a tree stands in it**, with the nodes around it. -/
theorem exists_stands_of_mem_places {place : Place} (h : place ∈ root.places) :
    (∃ depth, root.Stands depth place.node) ∧
      ∀ ancestor ∈ place.above, ∃ depth, root.Stands depth ancestor.node :=
  ⟨(under_of_mem_places h).exists_stands, (under_of_mem_places h).exists_stands_of_mem⟩

theorem mem_placesUnder_self (above : List Ancestor) (n : Node) :
    ⟨n, above⟩ ∈ n.placesUnder above := by
  rw [placesUnder_eq]
  exact List.mem_cons_self

/-- Below a place of a tree there is one for each child. -/
theorem mem_placesUnder_of_child {above above' : List Ancestor} {i : Nat} {m : Node}
    (h : ⟨n, above⟩ ∈ m.placesUnder above') (hc : n.children[i]? = some c) :
    ⟨c, ⟨n, i⟩ :: above⟩ ∈ m.placesUnder above' := by
  induction m using inductionOnChildren generalizing above' with
  | h m ih =>
    rw [placesUnder_eq] at h ⊢
    refine List.mem_cons_of_mem _ (List.mem_flatMap.2 ?_)
    rcases List.mem_cons.1 h with hself | h
    · obtain ⟨rfl, rfl⟩ := Place.mk.inj hself
      exact ⟨(c, i), List.mk_mem_zipIdx_iff_getElem?.2 hc, mem_placesUnder_self _ _⟩
    · obtain ⟨⟨d, j⟩, hdj, h⟩ := List.mem_flatMap.1 h
      exact ⟨(d, j), hdj, ih d (List.fst_mem_of_mem_zipIdx hdj) h⟩

/-- What ancestors lead down to is at a place of the tree. -/
theorem Under.mem_places {above : List Ancestor} (h : root.Under n above) :
    ⟨n, above⟩ ∈ root.places := by
  induction h with
  | root => exact mem_placesUnder_self _ _
  | child _ hc ih => exact mem_placesUnder_of_child ih hc

/-- **Every node of a tree has a place in it.** -/
theorem exists_place_of_mem_preorder (h : n ∈ root.preorder) :
    ∃ place ∈ root.places, place.node = n := by
  have hunder : ∀ (m : Node) (above : List Ancestor), root.Under m above → n ∈ m.preorder →
      ∃ place ∈ root.places, place.node = n := by
    intro m
    induction m using inductionOnChildren with
    | h m ih =>
      intro above hm hn
      rw [preorder_eq] at hn
      rcases List.mem_cons.1 hn with rfl | hn
      · exact ⟨⟨n, above⟩, hm.mem_places, rfl⟩
      · obtain ⟨c, hc, hn⟩ := List.mem_flatMap.1 hn
        obtain ⟨i, hi⟩ := List.getElem?_of_mem hc
        exact ih c hc _ (hm.child hi) hn
  exact hunder root [] .root h

/-- What a walk meets stands in the tree. -/
theorem exists_stands_of_mem_preorder (h : n ∈ root.preorder) :
    ∃ depth, root.Stands depth n := by
  obtain ⟨place, hplace, rfl⟩ := exists_place_of_mem_preorder h
  exact ⟨_, stands_of_mem_places hplace⟩

/-! ## Behind parentheses -/

/-- What stands in parenthesized code is one of the parentheses, or stands in
what they enclose. -/
theorem Stands.isParen_or_stands (h : root.Stands depth n) :
    n.isParen = true ∨ ∃ depth, root.skipParens.Stands depth n := by
  -- Of the parentheses around the code we keep that they enclose the same.
  have hchain : (n.isParen = true ∧ n.skipParens = root.skipParens) ∨
      ∃ depth, root.skipParens.Stands depth n := by
    induction h with
    | root =>
      cases hparen : root.isParen with
      | true => exact .inl ⟨rfl, rfl⟩
      | false => exact .inr ⟨0, (skipParens_eq_self hparen).symm ▸ .root⟩
    | @child depth n c _ hc ih =>
      rcases ih with ⟨hparen, hsame⟩ | ⟨depth, hbelow⟩
      · cases n
        case paren _ expr =>
          obtain rfl := List.mem_singleton.1 hc
          cases hexpr : c.isParen with
          | true => exact .inl ⟨rfl, hsame⟩
          | false =>
            have hsame : c = root.skipParens := (skipParens_eq_self hexpr).symm.trans hsame
            exact .inr ⟨0, hsame ▸ .root⟩
        all_goals exact absurd hparen nofun
      · exact .inr ⟨_, hbelow.child hc⟩
  exact hchain.imp_left And.left

/-- **A scan meets what parentheses enclose**, with nothing but parentheses
around it. -/
theorem exists_scanVisit_skipParens (n : Node) :
    ∃ ancestors, ⟨n.skipParens, ancestors⟩ ∈ n.scanVisits ∧ (∀ a ∈ ancestors, a.isParen = true) ∧
      (ancestors = [] ↔ n.isParen = false) := by
  have hunder : ∀ (n : Node) (above : List Node), ∃ ancestors,
      ⟨n.skipParens, ancestors ++ above⟩ ∈ n.scanVisitsUnder above ∧
        (∀ a ∈ ancestors, a.isParen = true) ∧ (ancestors = [] ↔ n.isParen = false) := by
    intro n
    induction n using inductionOnChildren with
    | h n ih =>
      intro above
      cases hparen : n.isParen with
      | false =>
        refine ⟨[], ?_, nofun, by simp⟩
        rw [skipParens_eq_self hparen, scanVisitsUnder_eq]
        exact List.mem_cons_self
      | true =>
        cases n
        case paren info expr =>
          obtain ⟨ancestors, hvisit, hparens, -⟩ :=
            ih expr List.mem_cons_self (.paren info expr :: above)
          refine ⟨ancestors ++ [.paren info expr], ?_, ?_, by simp⟩
          · rw [scanVisitsUnder_eq, List.append_assoc]
            exact List.mem_cons_of_mem _
              (List.mem_flatMap.2 ⟨expr, List.mem_cons_self, hvisit⟩)
          · exact List.forall_mem_append.2 ⟨hparens, List.forall_mem_singleton.2 rfl⟩
        all_goals exact absurd hparen nofun
  obtain ⟨ancestors, h⟩ := hunder n []
  rw [List.append_nil] at h
  exact ⟨ancestors, h⟩

end Node

end Codemod
