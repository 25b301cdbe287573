import Codemod.Proofs.Edit.Compatibility
import Codemod.Proofs.Edit.Turning
/-!
# Applying a script

A script is applied in one pass that copies what lies between its edits. Where
the edits fit the source and none begins before the last one has ended, every
piece that is copied can be cut out of the source
(`EditScript.Advances.exists_untouched?`), and the pass comes to what the edits
make one at a time, the last of them first
(`EditScript.Advances.foldrM_replaceIn?`). The edits of a composed script are
such, so it replaces all it replaces at once
(`EditScript.exists_pieces_of_ofProposals`).
-/

namespace Codemod

open Text

/-! ## Slices side by side -/

namespace Text

variable {s l m : String} {start middle stop : Nat}

/-- Between two offsets that split a text there is a piece of it. -/
theorem exists_slice? (hle : start ≤ stop) (hstart : Splits s start) (hstop : Splits s stop) :
    ∃ piece, slice? s start stop = some piece :=
  ⟨_, dif_pos ⟨hle, hstart, hstop⟩⟩

/-- **Two pieces that meet are one piece.** -/
theorem slice?_append (hl : slice? s start middle = some l) (hm : slice? s middle stop = some m) :
    slice? s start stop = some (l ++ m) := by
  obtain ⟨before, rest, hs, hstart, hmiddle⟩ := slice?_eq_some_iff.1 hl
  obtain ⟨before', after, hs', hmiddle', hstop⟩ := slice?_eq_some_iff.1 hm
  have hmeet : byteCount (before ++ l) = byteCount before' := by
    rw [byteCount_append]
    omega
  have hsame : (before ++ l) ++ rest = before' ++ (m ++ after) := by
    rw [← hs, hs', String.append_assoc]
  have hbefore : before ++ l = before' := eq_of_byteCount_eq hsame hmeet
  refine slice?_eq_some_iff.2 ⟨before, after, ?_, hstart, ?_⟩
  · rw [hs', ← hbefore]
    simp only [String.append_assoc]
  · rw [byteCount_append]
    omega

/-- The piece from the beginning to the end is the whole text. -/
theorem eq_of_slice?_whole (h : slice? s 0 (byteCount s) = some m) : m = s := by
  obtain ⟨before, after, hs, hstart, hstop⟩ := slice?_eq_some_iff.1 h
  have hbefore : before = "" := byteCount_eq_zero_iff.1 hstart.symm
  subst hbefore
  rw [String.empty_append] at hs
  have hcount := congrArg byteCount hs
  rw [byteCount_append] at hcount
  rw [byteCount_empty, Nat.zero_add] at hstop
  have hafter : after = "" := byteCount_eq_zero_iff.1 (by omega)
  rw [hs, hafter, String.append_empty]

end Text

/-! ## One edit -/

/-- The text with the edit applied to it, if it can be cut at the span of the
edit. -/
def Edit.replaceIn? (e : Edit) (text : String) : Option String := do
  let before ← slice? text 0 e.span.start
  let _ ← e.span.slice? text
  let after ← slice? text e.span.stop (byteCount text)
  return before ++ e.replacement ++ after

/-- What an edit makes of a text that it cuts in three. -/
theorem Edit.replaceIn?_eq {e : Edit} {before old after : String}
    (hstart : e.span.start = byteCount before)
    (hstop : e.span.stop = byteCount before + byteCount old) :
    e.replaceIn? (before ++ old ++ after) = some (before ++ e.replacement ++ after) := by
  have hbefore : slice? (before ++ old ++ after) 0 e.span.start = some before := by
    refine slice?_eq_some_iff.2 ⟨"", old ++ after, ?_, byteCount_empty.symm, ?_⟩
    · rw [String.empty_append, String.append_assoc]
    · rw [hstart, byteCount_empty, Nat.zero_add]
  have hold : e.span.slice? (before ++ old ++ after) = some old :=
    slice?_eq_some_iff.2 ⟨before, after, rfl, hstart, hstop⟩
  have hafter : slice? (before ++ old ++ after) e.span.stop (byteCount (before ++ old ++ after)) =
      some after := by
    refine slice?_eq_some_iff.2 ⟨before ++ old, "", ?_, ?_, ?_⟩
    · rw [String.append_empty]
    · rw [hstop, byteCount_append]
    · exact byteCount_append _ _
  rw [replaceIn?, hbefore, hold, hafter]
  rfl

namespace EditScript

variable {source : String} {offset : Nat} {e : Edit} {es : List Edit}

/-! ## One pass -/

/-- The pieces of the source that applying edits copies, in order: before each
edit what follows the one before it, and at last the rest. There are none when
one of them cannot be cut out. -/
def untouched? (source : String) (offset : Nat) : List Edit → Option (List String)
  | [] => do
    let piece ← slice? source offset (byteCount source)
    return [piece]
  | e :: rest => do
    let piece ← slice? source offset e.span.start
    let pieces ← untouched? source e.span.stop rest
    return piece :: pieces

/-- Pieces one after another, with texts between them. -/
def weave : List String → List String → String
  | piece :: pieces, t :: ts => piece ++ t ++ weave pieces ts
  | pieces, ts => String.join pieces ++ String.join ts

theorem weave_singleton (piece : String) : weave [piece] [] = piece := by
  simp [weave]

/-- What application copies are the untouched pieces. -/
theorem applyFrom_eq_weave {pieces : List String} (h : untouched? source offset es = some pieces) :
    applyFrom source offset es = weave pieces (es.map (·.replacement)) := by
  induction es generalizing offset pieces with
  | nil =>
    obtain ⟨piece, hpiece, h⟩ := Option.bind_eq_some_iff.1 h
    obtain rfl := Option.some.inj h
    rw [applyFrom, hpiece, Option.getD_some, List.map_nil, weave_singleton]
  | cons e es ih =>
    obtain ⟨piece, hpiece, h⟩ := Option.bind_eq_some_iff.1 h
    obtain ⟨rest, hrest, h⟩ := Option.bind_eq_some_iff.1 h
    obtain rfl := Option.some.inj h
    rw [applyFrom, hpiece, Option.getD_some, ih hrest, List.map_cons, weave]

/-! ## Edits that go forward -/

/-- From the offset on the edits fit the source, and none begins before the one
before it has ended. -/
inductive Advances (source : String) : Nat → List Edit → Prop
  | nil {offset : Nat} : Splits source offset → offset ≤ byteCount source →
      Advances source offset []
  | cons {offset : Nat} {e : Edit} {es : List Edit} : Splits source offset →
      offset ≤ e.span.start → e.FitsIn source → Advances source e.span.stop es →
      Advances source offset (e :: es)

/-- Edits that fit and have each ended where later ones begin go forward. -/
theorem advances_of_pairwise (hoffset : Splits source offset) (hle : offset ≤ byteCount source)
    (hfits : ∀ e ∈ es, e.FitsIn source) (hfirst : ∀ e ∈ es, offset ≤ e.span.start)
    (hapart : es.Pairwise fun a b => a.span.stop ≤ b.span.start) :
    Advances source offset es := by
  induction es generalizing offset with
  | nil => exact .nil hoffset hle
  | cons e es ih =>
    obtain ⟨hlater, hapart⟩ := List.pairwise_cons.1 hapart
    obtain ⟨he, hes⟩ := List.forall_mem_cons.1 hfits
    have hrest : Advances source e.span.stop es :=
      ih he.splits_stop he.stop_le hes hlater hapart
    exact .cons hoffset (hfirst e List.mem_cons_self) he hrest

/-- **Nothing is cut out of range or within a character**, neither what is copied
nor what is replaced, and together they are all of the source from the offset
on. -/
theorem Advances.exists_untouched? (h : Advances source offset es) :
    ∃ pieces olds, untouched? source offset es = some pieces ∧
      es.mapM (·.span.slice? source) = some olds ∧ pieces.length = es.length + 1 ∧
      slice? source offset (byteCount source) = some (weave pieces olds) := by
  have hend : Splits source (byteCount source) :=
    splits_iff.2 ⟨source, "", String.append_empty.symm, rfl⟩
  induction h with
  | @nil offset hoffset hle =>
    obtain ⟨piece, hpiece⟩ := exists_slice? hle hoffset hend
    refine ⟨[piece], [], ?_, rfl, rfl, ?_⟩
    · rw [untouched?, hpiece]
      rfl
    · rw [weave_singleton, hpiece]
  | @cons offset e es hoffset hle he _ ih =>
    obtain ⟨pieces, olds, hpieces, holds, hlength, hrest⟩ := ih
    obtain ⟨piece, hpiece⟩ := exists_slice? hle hoffset he.splits_start
    obtain ⟨old, hold⟩ := exists_slice? he.start_le_stop he.splits_start he.splits_stop
    have hspan : e.span.slice? source = some old := hold
    refine ⟨piece :: pieces, old :: olds, ?_, ?_, congrArg (· + 1) hlength, ?_⟩
    · rw [untouched?, hpiece, hpieces]
      rfl
    · rw [List.mapM_cons, hspan, holds]
      rfl
    · exact slice?_append (slice?_append hpiece hold) hrest

/-- **One pass comes to what the edits make one at a time**, from the last to the
first. By then nothing before the offset has been touched. -/
theorem Advances.foldrM_replaceIn? (h : Advances source offset es) {before : String}
    (hbefore : slice? source 0 offset = some before) :
    es.foldrM Edit.replaceIn? source = some (before ++ applyFrom source offset es) := by
  induction h generalizing before with
  | @nil offset hoffset hle =>
    have hend : Splits source (byteCount source) :=
      splits_iff.2 ⟨source, "", String.append_empty.symm, rfl⟩
    obtain ⟨piece, hpiece⟩ := exists_slice? hle hoffset hend
    have hwhole : before ++ piece = source := eq_of_slice?_whole (slice?_append hbefore hpiece)
    rw [List.foldrM_nil, applyFrom, hpiece, Option.getD_some, hwhole]
    rfl
  | @cons offset e es hoffset hle he _ ih =>
    obtain ⟨piece, hpiece⟩ := exists_slice? hle hoffset he.splits_start
    obtain ⟨old, hold⟩ := exists_slice? he.start_le_stop he.splits_start he.splits_stop
    have hstart := slice?_append hbefore hpiece
    have hlater := ih (slice?_append hstart hold)
    -- The later edits have left all there is up to the end of this one.
    have hcount : e.span.start = byteCount (before ++ piece) := by
      obtain ⟨l, r, -, hl, hstop⟩ := slice?_eq_some_iff.1 hstart
      omega
    have hcount' : e.span.stop = byteCount (before ++ piece) + byteCount old := by
      obtain ⟨l, r, -, hl, hstop⟩ := slice?_eq_some_iff.1 hold
      omega
    have hthis : e.replaceIn? (before ++ piece ++ old ++ applyFrom source e.span.stop es) =
        some (before ++ piece ++ e.replacement ++ applyFrom source e.span.stop es) :=
      Edit.replaceIn?_eq hcount hcount'
    rw [List.foldrM_cons, hlater, applyFrom, hpiece, Option.getD_some]
    simp only [String.append_assoc] at hthis ⊢
    exact hthis

/-! ## Composed scripts -/

variable {ps : List Proposal} {imports : NameSet} {script : EditScript}

/-- The edits of a composed script go forward through the source. -/
theorem advances_of_ofProposals (h : ofProposals source ps imports = .ok script) :
    Advances source 0 script.edits := by
  obtain ⟨⟨hfits, hconflicts⟩, rfl⟩ := ofProposals_eq_ok_iff.1 h
  have hstart : Splits source 0 := splits_iff.2 ⟨"", source, String.empty_append.symm, rfl⟩
  exact advances_of_pairwise hstart (Nat.zero_le _) (fun e he => hfits e (mem_distinct.1 he))
    (fun e _ => Nat.zero_le _) (pairwise_stop_le_distinct hconflicts)

/-- **A composed script replaces all it replaces at once.** Every piece that
applying it copies can be cut out of the source, and so can what each edit
replaces; the source is these in turn. The result is the same pieces with the
replacements between them, and what the edits make of the source one at a time,
from the last to the first. -/
theorem exists_pieces_of_ofProposals (h : ofProposals source ps imports = .ok script) :
    ∃ pieces olds, untouched? source 0 script.edits = some pieces ∧
      script.edits.mapM (·.span.slice? source) = some olds ∧
      pieces.length = script.edits.length + 1 ∧
      source = weave pieces olds ∧
      script.apply source = weave pieces (script.edits.map (·.replacement)) ∧
      script.edits.foldrM Edit.replaceIn? source = some (script.apply source) := by
  have hadvances := advances_of_ofProposals h
  obtain ⟨pieces, olds, hpieces, holds, hlength, hwhole⟩ := hadvances.exists_untouched?
  have hempty : slice? source 0 0 = some "" := slice?_self String.empty_append.symm
  have hbackwards := hadvances.foldrM_replaceIn? hempty
  rw [String.empty_append] at hbackwards
  exact ⟨pieces, olds, hpieces, holds, hlength, (eq_of_slice?_whole hwhole).symm,
    applyFrom_eq_weave hpieces, hbackwards⟩

/-- The edit proposed first comes last in the text, and an insertion touches the
end of a replacement. -/
theorem exists_pieces_of_touching_edits :
    ∃ script : EditScript,
      ofProposals "é + b" [("late", ⟨⟨5, 6⟩, "ü"⟩), ("early", ⟨⟨0, 2⟩, "a"⟩),
        ("touching", ⟨⟨2, 2⟩, " *"⟩)] .empty = .ok script ∧
      script.apply "é + b" = "a * + ü" ∧
      ∃ pieces olds, untouched? "é + b" 0 script.edits = some pieces ∧
        script.edits.mapM (·.span.slice? "é + b") = some olds ∧
        pieces.length = script.edits.length + 1 ∧
        "é + b" = weave pieces olds ∧
        script.apply "é + b" = weave pieces (script.edits.map (·.replacement)) ∧
        script.edits.foldrM Edit.replaceIn? "é + b" = some (script.apply "é + b") := by
  have hedits : distinct [("late", (⟨⟨5, 6⟩, "ü"⟩ : Edit)), ("early", ⟨⟨0, 2⟩, "a"⟩),
      ("touching", ⟨⟨2, 2⟩, " *"⟩)] = [⟨⟨0, 2⟩, "a"⟩, ⟨⟨2, 2⟩, " *"⟩, ⟨⟨5, 6⟩, "ü"⟩] := by
    refine distinct_eq (fun e => ?_) (by unfold Precedes; decide)
    simp only [List.map_cons, List.map_nil, List.mem_cons, List.not_mem_nil, or_false]
    tauto
  have hscript : ofProposals "é + b" [("late", ⟨⟨5, 6⟩, "ü"⟩), ("early", ⟨⟨0, 2⟩, "a"⟩),
      ("touching", ⟨⟨2, 2⟩, " *"⟩)] .empty = .ok ⟨distinct _, .empty⟩ :=
    ofProposals_eq_ok (by decide) (by decide)
  refine ⟨_, hscript, ?_, exists_pieces_of_ofProposals hscript⟩
  rw [hedits]
  decide

end EditScript

end Codemod
