import Codemod.Proofs.Tree.Nesting
/-!
# The space between the parts of a call

In a laid out tree the arguments of a call stand apart from its callee and from
one another (`Node.PlacedIn.call`), and the name of a selection begins behind
what it is selected on (`Node.PlacedIn.select`). Something is always printed in
between, so that edits of two parts do not meet even where both are insertions.
-/

namespace Codemod

open Layout Text

namespace Span

variable {s t u : Span}

theorem contains_iff : s.contains t = true ↔ s.start ≤ t.start ∧ t.stop ≤ s.stop := by
  simp [contains]

theorem contains_self (s : Span) : s.contains s = true :=
  contains_iff.2 ⟨Nat.le_refl _, Nat.le_refl _⟩

theorem contains_trans (hst : s.contains t = true) (htu : t.contains u = true) :
    s.contains u = true := by
  rw [contains_iff] at *
  omega

/-- A span that contains two spans contains the least span that does. -/
theorem contains_hull (ht : s.contains t = true) (hu : s.contains u = true) :
    s.contains (t.hull u) = true := by
  rw [contains_iff] at *
  simp only [hull]
  omega

theorem hull_contains_left (s t : Span) : (s.hull t).contains s = true := by
  rw [contains_iff]
  simp only [hull]
  omega

theorem hull_contains_right (s t : Span) : (s.hull t).contains t = true := by
  rw [contains_iff]
  simp only [hull]
  omega

/-- The source reads as some text at the span. -/
def IsReadIn (s : Span) (source : String) : Prop := ∃ text, s.slice? source = some text

theorem IsReadIn.start_le_stop {source : String} (h : s.IsReadIn source) : s.start ≤ s.stop := by
  obtain ⟨text, htext⟩ := h
  obtain ⟨l, r, -, hstart, hstop⟩ := slice?_eq_some_iff.1 htext
  omega

/-- Where a text begins there is room for an insertion. -/
theorem IsReadIn.point {source : String} (h : s.IsReadIn source) :
    (Span.point s.start).IsReadIn source := by
  obtain ⟨text, htext⟩ := h
  obtain ⟨l, r, hsource, hstart, -⟩ := slice?_eq_some_iff.1 htext
  refine ⟨"", slice?_eq_some_iff.2 ⟨l, text ++ r, ?_, hstart, hstart⟩⟩
  simpa [String.append_assoc] using hsource

/-- The span has ended, with bytes in between, when the other begins. -/
def IsBefore (s t : Span) : Prop := s.stop < t.start

/-- Parts of spans that lie apart lie apart. -/
theorem IsBefore.mono {v : Span} (h : s.IsBefore t) (hs : s.contains u = true)
    (ht : t.contains v = true) : u.IsBefore v := by
  rw [contains_iff] at hs ht
  unfold IsBefore at *
  omega

end Span

namespace Node

variable {source : String} {root n : Node} {depth depth' : Nat}

/-- **What stands in placed code** is placed in the source too, and spans a part
of the code. -/
theorem PlacedIn.of_stands (hroot : root.PlacedIn source depth) (h : root.Stands depth' n) :
    (∃ depth, n.PlacedIn source depth) ∧ root.span.contains n.span = true := by
  refine ⟨?_, Span.contains_iff.2 (hroot.spansNest.within h)⟩
  induction h with
  | root => exact ⟨depth, hroot⟩
  | child _ hc ih =>
    obtain ⟨depth, hn⟩ := ih
    exact ⟨_, hn.child hc⟩

theorem PlacedIn.isReadIn (h : n.PlacedIn source depth) : n.span.IsReadIn source :=
  ⟨_, h.slice?.2⟩

theorem PlacedIn.contains_child {c : Node} (h : n.PlacedIn source depth) (hc : c ∈ n.children) :
    n.span.contains c.span = true :=
  Span.contains_iff.2 ⟨(h.span_child hc).1, (h.span_child hc).2.1⟩

/-! ## Parts of calls and selections -/

theorem le_start_of_mem_placeJoined {offset : Nat} {ns : List Node}
    (h : n ∈ placeJoined depth offset ns) : offset ≤ n.span.start := by
  induction ns generalizing offset with
  | nil => exact absurd h List.not_mem_nil
  | cons first rest ih =>
    rcases List.mem_cons.1 h with rfl | h
    · exact Nat.le_of_eq (congrArg Span.start (span_place depth offset first)).symm
    · have hlater := ih h
      omega

/-- Nodes with text between them stand apart. -/
theorem pairwise_placeJoined (depth offset : Nat) (ns : List Node) :
    (placeJoined depth offset ns).Pairwise fun a b => a.span.IsBefore b.span := by
  induction ns generalizing offset with
  | nil => exact .nil
  | cons first rest ih =>
    refine List.pairwise_cons.2 ⟨fun n hn => ?_, ih _⟩
    have hlater := le_start_of_mem_placeJoined hn
    rw [span_place, Span.IsBefore]
    dsimp only
    omega

/-- The parts of a call stand apart: its arguments begin behind the callee and
behind one another. -/
structure CallSpacing (callee : Node) (args : List Node) : Prop where
  callee_before : ∀ a ∈ args, callee.span.IsBefore a.span
  args_apart : args.Pairwise fun a b => a.span.IsBefore b.span

/-- Only a call is placed as a call. -/
theorem exists_call_of_place_eq {offset : Nat} {bare : Node} {info : NodeInfo} {callee : Node}
    {args : List Node} (h : bare.place depth offset = .call info callee args) :
    ∃ info' callee' args', bare = .call info' callee' args' := by
  cases bare
  case call i c as => exact ⟨i, c, as, rfl⟩
  case ret _ e => cases e <;> cases h
  case localVar _ _ _ init => cases init <;> cases h
  case methodDecl _ _ body => cases body <;> cases h
  case ifElse _ _ _ elseBranch => cases elseBranch <;> cases h
  all_goals cases h

/-- **The parts of a placed call stand apart.** -/
theorem PlacedIn.call {info : NodeInfo} {callee : Node} {args : List Node}
    (h : (Node.call info callee args).PlacedIn source depth) : CallSpacing callee args := by
  obtain ⟨bare, l, r, hplace, -⟩ := h
  obtain ⟨i, c, as, rfl⟩ := exists_call_of_place_eq hplace.symm
  obtain ⟨-, rfl, rfl⟩ := Node.call.inj hplace
  refine ⟨fun a ha => ?_, pairwise_placeJoined _ _ _⟩
  have hfirst := le_start_of_mem_placeJoined ha
  rw [span_place, Span.IsBefore]
  dsimp only
  omega

/-- A placed call begins where its callee does. -/
theorem PlacedIn.start_callee {info : NodeInfo} {callee : Node} {args : List Node}
    (h : (Node.call info callee args).PlacedIn source depth) :
    callee.span.start = info.span.start := by
  obtain ⟨bare, l, r, hplace, -⟩ := h
  obtain ⟨i, c, as, rfl⟩ := exists_call_of_place_eq hplace.symm
  obtain ⟨rfl, rfl, -⟩ := Node.call.inj hplace
  rw [span_place]
  rfl

/-- The name of a selection stands at its end, behind what it is selected on. -/
structure SelectSpacing (source : String) (info : NodeInfo) (target : Node) (name : String)
    (nameSpan : Span) : Prop where
  target_before : target.span.IsBefore nameSpan
  within : info.span.contains nameSpan = true
  reads : nameSpan.slice? source = some name
  empty : nameSpan.isEmpty = true → nameSpan = ⟨info.span.stop - byteCount name, info.span.stop⟩

/-- Only a selection is placed as a selection. -/
theorem exists_select_of_place_eq {offset : Nat} {bare : Node} {info : NodeInfo} {target : Node}
    {name : String} {nameSpan : Span}
    (h : bare.place depth offset = .select info target name nameSpan) :
    ∃ info' target' nameSpan', bare = .select info' target' name nameSpan' := by
  cases bare
  case select i t name' span =>
    obtain ⟨-, -, rfl, -⟩ := Node.select.inj h
    exact ⟨i, t, span, rfl⟩
  case ret _ e => cases e <;> cases h
  case localVar _ _ _ init => cases init <;> cases h
  case methodDecl _ _ body => cases body <;> cases h
  case ifElse _ _ _ elseBranch => cases elseBranch <;> cases h
  all_goals cases h

/-- **The name of a placed selection** is where its span says. -/
theorem PlacedIn.select {info : NodeInfo} {target : Node} {name : String} {nameSpan : Span}
    (h : (Node.select info target name nameSpan).PlacedIn source depth) :
    SelectSpacing source info target name nameSpan := by
  obtain ⟨bare, l, r, hplace, hsource⟩ := h
  obtain ⟨i, t, span, rfl⟩ := exists_select_of_place_eq hplace.symm
  obtain ⟨rfl, rfl, -, rfl⟩ := Node.select.inj hplace
  have hwidth : (Node.select i t name span).width depth =
      t.width depth + 1 + byteCount name := rfl
  have hdot : byteCount "." = 1 := by decide
  refine ⟨?_, ?_, ?_, fun hempty => ?_⟩
  · rw [span_place, Span.IsBefore]
    dsimp only
    omega
  · rw [placedInfo, hwidth, Span.contains, Bool.and_eq_true, decide_eq_true_eq, decide_eq_true_eq]
    dsimp only
    omega
  · have hstart : byteCount l + t.width depth + 1 = byteCount (l ++ t.text depth ++ ".") := by
      rw [byteCount_append, byteCount_append, ← width_eq, hdot]
    refine slice?_eq_some_iff.2 ⟨_, r, ?_, hstart, congrArg (· + byteCount name) hstart⟩
    rw [hsource, text]
    simp only [String.append_assoc]
  · rw [Span.isEmpty, decide_eq_true_eq] at hempty
    dsimp only at hempty
    rw [placedInfo, hwidth, Span.mk.injEq]
    dsimp only
    omega

/-- A placed selection begins where what it is selected on does. -/
theorem PlacedIn.start_target {info : NodeInfo} {target : Node} {name : String} {nameSpan : Span}
    (h : (Node.select info target name nameSpan).PlacedIn source depth) :
    target.span.start = info.span.start := by
  obtain ⟨bare, l, r, hplace, -⟩ := h
  obtain ⟨i, t, span, rfl⟩ := exists_select_of_place_eq hplace.symm
  obtain ⟨rfl, rfl, -⟩ := Node.select.inj hplace
  rw [span_place]
  rfl

/-- The name of a placed selection ends with the selection. -/
theorem PlacedIn.stop_select {info : NodeInfo} {target : Node} {name : String} {nameSpan : Span}
    (h : (Node.select info target name nameSpan).PlacedIn source depth) :
    nameSpan.stop = info.span.stop := by
  obtain ⟨bare, l, r, hplace, -⟩ := h
  obtain ⟨i, t, span, rfl⟩ := exists_select_of_place_eq hplace.symm
  obtain ⟨rfl, -, -, rfl⟩ := Node.select.inj hplace
  have hwidth : (Node.select i t name span).width depth =
      t.width depth + 1 + byteCount name := rfl
  rw [placedInfo, hwidth]
  dsimp only
  omega

end Node

end Codemod
