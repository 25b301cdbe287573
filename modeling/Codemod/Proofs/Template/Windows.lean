import Codemod.Proofs.Tree.Standing
import Codemod.Template.Matching
import Codemod.Template.Rendering
/-!
# Runs of statements in their text

The statements of a block that is laid out stand on lines of their own. A run of
them spans the lines from the first to the last (`Template.slice?_spanOf`), and
the line of the first is indented as all are (`Template.indentAt_spanOf`).
-/

namespace Codemod

open Layout Text

/-! ## Lines -/

namespace Node

variable {depth offset : Nat}

theorem texts_append (depth : Nat) (ns ms : List Node) :
    texts depth (ns ++ ms) = texts depth ns ++ texts depth ms := by
  induction ns with
  | nil => rfl
  | cons n ns ih => exact congrArg (n.text depth :: ·) ih

theorem take_placeLines (ns : List Node) (k : Nat) :
    (placeLines depth offset ns).take k = placeLines depth offset (ns.take k) := by
  induction ns generalizing offset k with
  | nil => cases k <;> rfl
  | cons n ns ih =>
    cases k with
    | zero => rfl
    | succ k => exact congrArg (place depth _ n :: ·) (ih k)

theorem length_placeLines (ns : List Node) :
    (placeLines depth offset ns).length = ns.length := by
  induction ns generalizing offset with
  | nil => rfl
  | cons n ns ih => exact congrArg (· + 1) ih

theorem texts_placeLines (ns : List Node) :
    texts depth (placeLines depth offset ns) = texts depth ns := by
  induction ns generalizing offset with
  | nil => rfl
  | cons n ns ih => rw [placeLines, texts, texts, text_place, ih]

end Node

theorem Layout.lines_append (depth : Nat) (xs ys : List String) :
    lines depth (xs ++ ys) = lines depth xs ++ lines depth ys := by
  rw [lines, lines, lines, List.map_append, String.join_append]

/-- Lines are the first line break and the texts with line breaks between
them. -/
theorem Layout.lines_cons (depth : Nat) (x : String) (xs : List String) :
    lines depth (x :: xs) = newline depth ++ (newline depth).intercalate (x :: xs) := by
  induction xs generalizing x with
  | nil => simp [lines]
  | cons y ys ih =>
    have hfirst : lines depth (x :: y :: ys) = newline depth ++ x ++ lines depth (y :: ys) := by
      simp [lines, String.join_cons]
    rw [hfirst, ih, String.intercalate_cons_cons]
    simp only [String.append_assoc]

/-! ## Runs -/

namespace Template

variable {source : String} {depth : Nat}

/-- A run is made of nodes of the list. -/
theorem subset_of_mem_windows {k : Nat} {codes window : List Node}
    (h : window ∈ windows k codes) : window ⊆ codes := by
  induction codes with
  | nil => exact absurd h List.not_mem_nil
  | cons code codes ih =>
    rw [windows] at h
    split at h
    · exact absurd h List.not_mem_nil
    · rcases List.mem_cons.1 h with rfl | h
      · exact List.take_subset _ _
      · exact List.subset_cons_of_subset _ (ih h)

/-- Consecutive nodes are a run of the list. -/
theorem mem_windows_of_append {run after : List Node} (hrun : run ≠ []) (before : List Node) :
    run ∈ windows run.length (before ++ run ++ after) := by
  induction before with
  | nil =>
    obtain ⟨first, rest, rfl⟩ := List.exists_cons_of_ne_nil hrun
    have hfits : ¬ (first :: (rest ++ after)).length < (first :: rest).length := by simp
    have hfront : (first :: (rest ++ after)).take (first :: rest).length = first :: rest :=
      List.take_left
    rw [List.nil_append, List.cons_append, windows, if_neg hfits, hfront]
    exact List.mem_cons_self
  | cons n before ih =>
    have hfits : ¬ (n :: (before ++ run ++ after)).length < run.length := by
      simp only [List.length_cons, List.length_append]
      omega
    rw [List.cons_append, List.cons_append, windows, if_neg hfits]
    exact List.mem_cons_of_mem _ ih

/-- **A run of lines is lines**, of as many nodes as asked for. -/
theorem exists_lines_of_mem_windows {k : Nat} {ns window : List Node} {l r : String}
    (hsource : source = l ++ lines depth (Node.texts depth ns) ++ r)
    (h : window ∈ windows k (Node.placeLines depth (byteCount l) ns)) :
    window.length = k ∧ ∃ ms l' r', window = Node.placeLines depth (byteCount l') ms ∧
      source = l' ++ lines depth (Node.texts depth ms) ++ r' := by
  induction ns generalizing l with
  | nil => exact absurd h List.not_mem_nil
  | cons n rest ih =>
    rw [Node.placeLines, windows] at h
    split at h
    · exact absurd h List.not_mem_nil
    rename_i hlong
    rcases List.mem_cons.1 h with rfl | h
    · -- The first run begins where the lines do.
      have hlength : k ≤ (n :: rest).length := by
        simpa [Node.length_placeLines] using hlong
      have hsplit : Node.texts depth (n :: rest) =
          Node.texts depth ((n :: rest).take k) ++ Node.texts depth ((n :: rest).drop k) := by
        rw [← Node.texts_append, List.take_append_drop]
      have hwindow : (Node.placeLines depth (byteCount l) (n :: rest)).take k =
          Node.placeLines depth (byteCount l) ((n :: rest).take k) := Node.take_placeLines _ k
      rw [Node.placeLines] at hwindow
      refine ⟨?_, (n :: rest).take k, l,
        lines depth (Node.texts depth ((n :: rest).drop k)) ++ r, hwindow, ?_⟩
      · rw [hwindow, Node.length_placeLines, List.length_take, Nat.min_eq_left hlength]
      · rw [hsource, hsplit, Layout.lines_append]
        simp only [String.append_assoc]
    · -- Later runs are runs of the lines after the first.
      rw [newlineWidth_eq, Node.width_eq, Nat.add_assoc, ← byteCount_append,
        ← byteCount_append] at h
      refine ih ?_ h
      rw [hsource, Node.texts, lines, List.map_cons, String.join_cons, lines]
      simp only [String.append_assoc]

/-- A run of statements of a placed block is lines of the source. -/
theorem exists_lines_of_placedIn {k : Nat} {info : NodeInfo} {codes window : List Node}
    (h : (Node.block info codes).PlacedIn source depth) (hwindow : window ∈ windows k codes) :
    window.length = k ∧ ∃ ms l r, window = Node.placeLines (depth + 1) (byteCount l) ms ∧
      source = l ++ lines (depth + 1) (Node.texts (depth + 1) ms) ++ r := by
  obtain ⟨bare, l, r, hplace, hsource⟩ := h
  cases bare
  case block i stmts =>
    obtain ⟨-, rfl⟩ := Node.block.inj hplace
    have hbrace : byteCount l + 1 = byteCount (l ++ "\x7b") := by
      rw [byteCount_append]
      rfl
    rw [hbrace] at hwindow
    refine exists_lines_of_mem_windows (r := newline depth ++ "\x7d" ++ r) ?_ hwindow
    rw [hsource, Node.text]
    simp only [String.append_assoc]
  -- Only a block is placed as a block.
  case ret _ e => cases e <;> exact absurd hplace nofun
  case localVar _ _ _ init => cases init <;> exact absurd hplace nofun
  case methodDecl _ _ body => cases body <;> exact absurd hplace nofun
  case ifElse _ _ _ elseBranch => cases elseBranch <;> exact absurd hplace nofun
  all_goals exact absurd hplace nofun

/-- **A run of statements of a placed block follows a line break**, with line
breaks between them. -/
theorem exists_run_of_placedIn {k : Nat} {info : NodeInfo} {codes window : List Node}
    (h : (Node.block info codes).PlacedIn source depth) (hk : k ≠ 0)
    (hwindow : window ∈ windows k codes) :
    window.length = k ∧ ∃ m ms l r,
      window = Node.placeLines (depth + 1) (byteCount l) (m :: ms) ∧
      source = l ++ newline (depth + 1) ++
        (newline (depth + 1)).intercalate (Node.texts (depth + 1) (m :: ms)) ++ r := by
  obtain ⟨hlength, ms, l, r, rfl, hsource⟩ := exists_lines_of_placedIn h hwindow
  cases ms with
  | nil => exact absurd hlength.symm hk
  | cons m ms =>
    refine ⟨hlength, m, ms, l, r, rfl, ?_⟩
    rw [hsource, Node.texts, lines_cons]
    simp only [String.append_assoc]

/-- The last of lines ends where they all do. -/
theorem exists_span_getLast_placeLines {start offset : Nat} (ns : List Node) {first : Node}
    (hfirst : first.span = ⟨start, offset⟩) (hle : start ≤ offset) :
    ∃ lastStart, start ≤ lastStart ∧
      ((Node.placeLines depth offset ns).getLast?.getD first).span =
        ⟨lastStart, offset + byteCount (lines depth (Node.texts depth ns))⟩ := by
  induction ns generalizing start offset first with
  | nil => exact ⟨start, Nat.le_refl _, hfirst⟩
  | cons n ns ih =>
    have hlines : byteCount (lines depth (Node.texts depth (n :: ns))) =
        newlineWidth depth + (n.width depth + byteCount (lines depth (Node.texts depth ns))) := by
      rw [Node.texts, lines, List.map_cons, String.join_cons, byteCount_append, byteCount_append,
        ← newlineWidth_eq, ← Node.width_eq, Nat.add_assoc]
      rfl
    obtain ⟨lastStart, hstart, hlast⟩ := ih
      (Node.span_place depth (offset + newlineWidth depth) n) (Nat.le_add_right _ _)
    refine ⟨lastStart, by omega, ?_⟩
    rw [Node.placeLines, List.getLast?_cons, Option.getD_some, hlast, hlines]
    simp only [Nat.add_assoc]

/-- **A run of lines spans their texts**, from the first text to the last. -/
theorem spanOf_placeLines {l : String} (n : Node) (ns : List Node) :
    spanOf (Node.placeLines depth (byteCount l) (n :: ns)) =
      ⟨byteCount (l ++ newline depth), byteCount (l ++ newline depth) +
        byteCount ((newline depth).intercalate (Node.texts depth (n :: ns)))⟩ := by
  have hspan := Node.span_place depth (byteCount l + newlineWidth depth) n
  obtain ⟨lastStart, hstart, hlast⟩ :=
    exists_span_getLast_placeLines ns hspan (Nat.le_add_right _ _)
  have htexts := congrArg byteCount
    (Layout.lines_cons depth (n.text depth) (Node.texts depth ns))
  rw [lines, List.map_cons, String.join_cons, byteCount_append, byteCount_append,
    byteCount_append, ← newlineWidth_eq, ← Node.width_eq, ← lines] at htexts
  rw [Node.placeLines, spanOf, hlast, hspan, Span.hull, byteCount_append, ← newlineWidth_eq,
    Node.texts]
  congr 1
  · exact Nat.min_eq_left hstart
  · rw [Nat.max_eq_right (by dsimp only; omega)]
    dsimp only
    omega

/-- **The source text of a run** is the texts with line breaks between them. -/
theorem slice?_spanOf {l r : String} {n : Node} {ns : List Node}
    (hsource : source = l ++ newline depth ++
      (newline depth).intercalate (Node.texts depth (n :: ns)) ++ r) :
    (spanOf (Node.placeLines depth (byteCount l) (n :: ns))).slice? source =
      some ((newline depth).intercalate (Node.texts depth (n :: ns))) := by
  rw [spanOf_placeLines]
  exact slice?_eq_some_iff.2 ⟨_, _, hsource, rfl, rfl⟩

/-- So does a run of statements of a placed block. -/
theorem slice?_spanOf_of_placedIn {k : Nat} {info : NodeInfo} {codes window : List Node}
    (h : (Node.block info codes).PlacedIn source depth) (hk : k ≠ 0)
    (hwindow : window ∈ windows k codes) :
    (spanOf window).slice? source =
      some ((newline (depth + 1)).intercalate (Node.texts (depth + 1) window)) := by
  obtain ⟨-, m, ms, l, r, rfl, hsource⟩ := exists_run_of_placedIn h hk hwindow
  rw [Node.texts_placeLines]
  exact slice?_spanOf hsource

end Template

/-! ## Indentation -/

/-- The blanks that begin a line at a nesting depth. -/
def Layout.blanks (depth : Nat) : String := String.join (List.replicate depth "    ")

theorem Layout.eq_blank_of_mem_blanks {depth : Nat} {c : Char} (h : c ∈ (blanks depth).toList) :
    c = ' ' := by
  induction depth with
  | zero => exact absurd h (by simp [blanks])
  | succ depth ih =>
    rw [blanks, List.replicate_succ, String.join_cons, String.toList_append] at h
    rcases List.mem_append.1 h with h | h
    · simpa using h
    · exact ih h

namespace Rendering

/-- **The line of a text after a line break begins with the blanks before the
text**, if the text does not begin with more. -/
theorem indentAt_eq {l rest : String} {depth : Nat}
    (hrest : ∀ c ∈ rest.toList.head?, c ≠ ' ' ∧ c ≠ '\t') :
    indentAt (l ++ newline depth ++ rest) (byteCount (l ++ newline depth)) = blanks depth := by
  have hslice : Text.slice? (l ++ newline depth ++ rest) 0 (byteCount (l ++ newline depth)) =
      some (l ++ newline depth) := slice?_eq_some_iff.2 ⟨"", rest, by simp, by simp, by simp⟩
  have hbefore : (l ++ newline depth).toList = l.toList ++ '\n' :: (blanks depth).toList := by
    rw [newline, String.toList_append, String.toList_append]
    rfl
  -- Back from the text there are only blanks up to the line break.
  have hline : (l ++ newline depth).toList.reverse.takeWhile (· != '\n') =
      (blanks depth).toList.reverse := by
    rw [hbefore, List.reverse_append, List.reverse_cons, List.append_assoc,
      List.takeWhile_append_of_pos]
    · simp
    · intro c hc
      rw [eq_blank_of_mem_blanks (List.mem_reverse.1 hc)]
      rfl
  have hdrop : (l ++ newline depth ++ rest).toList.drop
      ((l ++ newline depth).toList.length - (blanks depth).toList.reverse.length) =
      (blanks depth).toList ++ rest.toList := by
    have hlength : (l ++ newline depth).toList.length - (blanks depth).toList.reverse.length =
        (l.toList ++ ['\n']).length := by
      rw [hbefore]
      simp only [List.length_append, List.length_cons, List.length_nil, List.length_reverse]
      omega
    have hsplit : (l ++ newline depth ++ rest).toList =
        (l.toList ++ ['\n']) ++ ((blanks depth).toList ++ rest.toList) := by
      rw [String.toList_append, hbefore]
      simp
    rw [hlength, hsplit, List.drop_left]
  have hstop : rest.toList.takeWhile (fun c => c == ' ' || c == '\t') = [] := by
    cases hchars : rest.toList with
    | nil => rfl
    | cons c cs =>
      rw [hchars] at hrest
      obtain ⟨hblank, htab⟩ := hrest c rfl
      rw [List.takeWhile_cons_of_neg (by simp [hblank, htab])]
  rw [indentAt, hslice, Option.getD_some, hline, hdrop, List.takeWhile_append_of_pos, hstop,
    List.append_nil, String.ofList_toList]
  intro c hc
  rw [eq_blank_of_mem_blanks hc]
  rfl

end Rendering

/-- **A run of several statements is indented as they are**, if the first does
not begin with a blank or a tab. -/
theorem Template.indentAt_spanOf {source l r : String} {depth : Nat} {n m : Node} {ns : List Node}
    (hsource : source = l ++ newline depth ++
      (newline depth).intercalate (Node.texts depth (n :: m :: ns)) ++ r)
    (hfirst : ∀ c ∈ ((newline depth).intercalate (Node.texts depth (n :: m :: ns))).toList.head?,
      c ≠ ' ' ∧ c ≠ '\t') :
    Rendering.indentAt source (spanOf (Node.placeLines depth (byteCount l) (n :: m :: ns))).start =
      blanks depth := by
  rw [spanOf_placeLines, hsource, String.append_assoc]
  refine Rendering.indentAt_eq fun c hc => hfirst c ?_
  -- Several statements have a line break between them, so their text is not empty.
  rwa [String.toList_append, List.head?_append, Option.or_of_isSome] at hc
  rw [Node.texts, Node.texts, String.intercalate_cons_cons]
  simp [newline]

end Codemod
