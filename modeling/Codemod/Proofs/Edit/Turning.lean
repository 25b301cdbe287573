import Codemod.Edit.Script
/-!
# What edits make of a text

Edits turn one text into another when they can be told off against it from left
to right: a stretch is kept, or one edit replaces all of it (`Turns`). They are
then in order, with none beginning before another has ended
(`Turns.pairwise_stop_le`), and a script of them makes just that text of the
source (`Turns.applyFrom_eq`). Where each stands is known from the texts before
it, so edits for parts of a text make up the edits for the whole.
-/

namespace Codemod

open Text

/-- First parts of one text that are as long as each other are the same. -/
theorem Text.eq_of_byteCount_eq {l l' m m' : String} (h : l ++ m = l' ++ m')
    (hcount : byteCount l = byteCount l') : l = l' := by
  obtain ⟨k, rfl⟩ := exists_eq_append_of_byteCount_le h (Nat.le_of_eq hcount)
  rw [byteCount_append] at hcount
  have hk : k = "" := byteCount_eq_zero_iff.1 (by omega)
  rw [hk, String.append_empty]

/-- Between an offset and itself there is nothing. -/
theorem Text.slice?_self {l r s : String} (h : s = l ++ r) :
    slice? s (byteCount l) (byteCount l) = some "" :=
  slice?_eq_some_iff.2 ⟨l, r, by rw [h, String.append_empty], rfl, rfl⟩

/-- The edits turn the text that starts at an offset into another. -/
inductive Turns : Nat → List Edit → String → String → Prop
  | keep {start : Nat} (text : String) : Turns start [] text text
  | replace {start : Nat} (text replacement : String) :
      Turns start [⟨⟨start, start + byteCount text⟩, replacement⟩] text replacement
  | append {start : Nat} {es fs : List Edit} {text next text' next' : String} :
      Turns start es text text' → Turns (start + byteCount text) fs next next' →
      Turns start (es ++ fs) (text ++ next) (text' ++ next')

namespace Turns

variable {start : Nat} {es : List Edit} {text text' source : String}

/-- The edits stay within the text. -/
theorem inside (h : Turns start es text text') {e : Edit} (he : e ∈ es) :
    start ≤ e.span.start ∧ e.span.start ≤ e.span.stop ∧
      e.span.stop ≤ start + byteCount text := by
  induction h with
  | keep => exact absurd he List.not_mem_nil
  | replace text replacement =>
    obtain rfl := List.mem_singleton.1 he
    exact ⟨Nat.le_refl _, Nat.le_add_right _ _, Nat.le_refl _⟩
  | append _ _ ih ih' =>
    rw [byteCount_append]
    rcases List.mem_append.1 he with he | he
    · have := ih he
      omega
    · have := ih' he
      omega

/-- **The edits are in order**: none begins before an earlier one has ended. -/
theorem pairwise_stop_le (h : Turns start es text text') :
    es.Pairwise fun a b => a.span.stop ≤ b.span.start := by
  induction h with
  | keep => exact .nil
  | replace => exact List.pairwise_singleton _ _
  | append hfirst hnext ih ih' =>
    refine List.pairwise_append.2 ⟨ih, ih', fun a ha b hb => ?_⟩
    have hstop := (hfirst.inside ha).2.2
    have hstart := (hnext.inside hb).1
    omega

/-! ## Applying -/

/-- Before the edits begin the source is copied, so an application that starts
earlier copies what is in between. -/
def Resumes (source : String) (offset : Nat) (es : List Edit) : Prop :=
  ∀ l m r, source = l ++ m ++ r → offset = byteCount l + byteCount m →
    EditScript.applyFrom source (byteCount l) es = m ++ EditScript.applyFrom source offset es

theorem slice?_eq {l m r : String} (hsource : source = l ++ m ++ r) :
    slice? source (byteCount l) (byteCount l + byteCount m) = some m :=
  slice?_eq_some_iff.2 ⟨l, r, hsource, rfl, rfl⟩

theorem resumes_nil (source : String) : Resumes source (byteCount source) [] := by
  intro l m r hsource hoffset
  have hempty := slice?_self (String.append_empty (s := source)).symm
  rw [EditScript.applyFrom, EditScript.applyFrom, hempty, hoffset, slice?_eq hsource]
  simp

/-- **Edits that turn a text make the other of it**, and what comes before them
is copied, whatever edits follow. -/
theorem resumes_append (h : Turns start es text text') {tail : List Edit} {l r : String}
    (hsource : source = l ++ text ++ r) (hstart : start = byteCount l)
    (htail : Resumes source (start + byteCount text) tail) :
    Resumes source start (es ++ tail) ∧
      EditScript.applyFrom source start (es ++ tail) =
        text' ++ EditScript.applyFrom source (start + byteCount text) tail := by
  induction h generalizing l r tail with
  | keep text =>
    subst hstart
    have hcopied := htail l text r hsource rfl
    refine ⟨fun l' m' r' hsource' hoffset => ?_, hcopied⟩
    -- What was read from further back ends where the text starts.
    have hsame : l' ++ m' ++ r' = l ++ (text ++ r) := by
      rw [← hsource', hsource, String.append_assoc]
    have hsplit : l' ++ m' = l :=
      Text.eq_of_byteCount_eq hsame (by rw [byteCount_append, hoffset])
    have hfurther := htail l' (m' ++ text) r
      (by rw [hsource, ← hsplit]; simp only [String.append_assoc])
      (by rw [byteCount_append, hoffset]; omega)
    rw [List.nil_append, hfurther, hcopied, String.append_assoc]
  | replace text replacement =>
    subst hstart
    have hhere := slice?_self (hsource.trans String.append_assoc)
    have happly : EditScript.applyFrom source (byteCount l)
        ([⟨⟨byteCount l, byteCount l + byteCount text⟩, replacement⟩] ++ tail) =
        replacement ++ EditScript.applyFrom source (byteCount l + byteCount text) tail := by
      rw [List.singleton_append, EditScript.applyFrom, hhere]
      simp
    refine ⟨fun l' m' r' hsource' hoffset => ?_, happly⟩
    rw [happly, List.singleton_append, EditScript.applyFrom]
    dsimp only
    rw [hoffset, slice?_eq hsource', String.append_assoc]
    rfl
  | @append start es fs text next text' next' _ _ ih ih' =>
    subst hstart
    rw [byteCount_append, ← Nat.add_assoc] at htail ⊢
    obtain ⟨hresumes, hnext⟩ := ih' (l := l ++ text) (r := r)
      (by rw [hsource]; simp only [String.append_assoc]) (by rw [byteCount_append]) htail
    obtain ⟨hresumes', hfirst⟩ := ih (l := l) (r := next ++ r)
      (by rw [hsource]; simp only [String.append_assoc]) rfl hresumes
    rw [List.append_assoc]
    exact ⟨hresumes', by rw [hfirst, hnext, String.append_assoc]⟩

/-- **A script of edits that turn the source makes the other text of it.** -/
theorem applyFrom_eq (h : Turns 0 es source text') :
    EditScript.applyFrom source 0 es = text' := by
  have hsource : source = "" ++ source ++ "" := by simp
  have htail : Resumes source (0 + byteCount source) [] := by
    rw [Nat.zero_add]
    exact resumes_nil source
  obtain ⟨-, happly⟩ := h.resumes_append hsource rfl htail
  have hempty := slice?_self (String.append_empty (s := source)).symm
  rw [List.append_nil, Nat.zero_add, EditScript.applyFrom, hempty] at happly
  simpa using happly

end Turns

end Codemod
