import Codemod.Proofs.Comment.Search
import Codemod.Proofs.Tree.Literal
import Mathlib.Logic.Function.Iterate
/-!
# Reading character by character

What a comment is, is said of characters: `//` or `/*` outside of literals,
where a literal ends at its quote or at the end of the line, a text block at
three quotes, and a backslash in either takes the whole next character with it.
A `Lexer` reads a text that way. Reading bytes comes to the same
(`Comment.search_and_contains_iff_lexer`), though there a backslash takes only one
byte of a character: the bytes of a character beyond ASCII mean nothing, and
the others are the whole of theirs.
-/

namespace Codemod.Comment

/-! ## The lexer -/

/-- What a character stands in. -/
inductive Mode where
  /-- Code. -/
  | code
  /-- A literal, in double or in single quotes. -/
  | literal (double : Bool)
  /-- A text block. -/
  | textBlock
  deriving DecidableEq

/-- What the next character stands in, and the characters to come. -/
structure Lexer where
  mode : Mode
  rest : List Char
  deriving DecidableEq

namespace Lexer

/-- Nothing of the text has been read. -/
def ofText (text : String) : Lexer := ⟨.code, text.toList⟩

/-- A character of code is read. -/
def inCode (c : Char) (rest : List Char) : Lexer :=
  if c = '"' then
    if ['"', '"'] <+: rest then ⟨.textBlock, rest.drop 2⟩ else ⟨.literal true, rest⟩
  else if c = '\'' then ⟨.literal false, rest⟩
  else ⟨.code, rest⟩

/-- A character of a literal is read, and with a backslash the next one. -/
def inLiteral (double : Bool) (c : Char) (rest : List Char) : Lexer :=
  if c = '\\' then ⟨.literal double, rest.drop 1⟩
  else if c = quoteChar double ∨ c = '\n' then ⟨.code, rest⟩
  else ⟨.literal double, rest⟩

/-- A character of a text block is read, and with a backslash the next one. -/
def inTextBlock (c : Char) (rest : List Char) : Lexer :=
  if c = '\\' then ⟨.textBlock, rest.drop 1⟩
  else if c = '"' ∧ ['"', '"'] <+: rest then ⟨.code, rest.drop 2⟩
  else ⟨.textBlock, rest⟩

/-- The next character is read, with those that belong to it. -/
def step : Lexer → Lexer
  | ⟨mode, []⟩ => ⟨mode, []⟩
  | ⟨.code, c :: rest⟩ => inCode c rest
  | ⟨.literal double, c :: rest⟩ => inLiteral double c rest
  | ⟨.textBlock, c :: rest⟩ => inTextBlock c rest

/-- A comment begins here. -/
def IsAtComment (l : Lexer) : Prop :=
  l.mode = .code ∧ (['/', '/'] <+: l.rest ∨ ['/', '*'] <+: l.rest)

instance (l : Lexer) : Decidable l.IsAtComment := inferInstanceAs (Decidable (_ ∧ _))

/-- Reading uses characters up. -/
theorem length_rest_step_lt {l : Lexer} (h : l.rest ≠ []) :
    l.step.rest.length < l.rest.length := by
  obtain ⟨mode, rest⟩ := l
  cases rest with
  | nil => exact absurd rfl h
  | cons c rest =>
    have hdrop (k : Nat) : (rest.drop k).length < (c :: rest).length := by
      rw [List.length_drop, List.length_cons]
      omega
    have hrest : rest.length < (c :: rest).length := Nat.lt_succ_self _
    cases mode with
    | code =>
      rw [step, inCode]
      split_ifs
      · exact hdrop 2
      · exact hrest
      · exact hrest
      · exact hrest
    | literal double =>
      rw [step, inLiteral]
      split_ifs
      · exact hdrop 1
      · exact hrest
      · exact hrest
    | textBlock =>
      rw [step, inTextBlock]
      split_ifs
      · exact hdrop 1
      · exact hdrop 2
      · exact hrest

end Lexer

/-! ## What the bytes come to -/

namespace Progress

variable {s : Progress} {c : Char} {cs : List Char}

/-- Reading the characters on comes to a comment. -/
def Finds (s : Progress) (cs : List Char) : Prop := s.read (String.ofList cs) = .comment

theorem finds_cons : s.Finds (c :: cs) ↔ (s.read (String.singleton c)).Finds cs := by
  rw [Finds, read_cons]
  rfl

theorem finds_comment (cs : List Char) : Progress.comment.Finds cs := by
  have hstays (bytes : List UInt8) : bytes.foldl next .comment = .comment := by
    induction bytes with
    | nil => rfl
    | cons b bytes ih => exact ih
  exact hstays _

/-- What was begun and is not continued may be forgotten. -/
theorem finds_settle_iff (h : ∀ c ∈ cs.head?, ¬ s.IsContinuedBy c) :
    s.settle.Finds cs ↔ s.Finds cs := by
  cases cs with
  | nil =>
    have hsettle := s.settle_beq_comment
    rw [Bool.eq_iff_iff, beq_iff_eq, beq_iff_eq] at hsettle
    exact hsettle
  | cons c cs => rw [Finds, Finds, read_of_not_isContinuedBy (h c rfl)]

/-- Behind a backslash any character is read over. -/
theorem read_escaped (double : Bool) (c : Char) :
    (escaped double).read (String.singleton c) = .literal double := by
  rcases isPlainChar_or c with hplain | hspecial
  · rw [read_singleton hplain]
    rfl
  · cases double <;> rcases hspecial with rfl | rfl | rfl | rfl | rfl | rfl <;> decide

theorem read_textEscaped (c : Char) :
    textEscaped.read (String.singleton c) = .textBlock := by
  rcases isPlainChar_or c with hplain | hspecial
  · rw [read_singleton hplain]
    rfl
  · rcases hspecial with rfl | rfl | rfl | rfl | rfl | rfl <;> decide

/-- What is read over in a literal. -/
theorem read_literal {double : Bool} (hbackslash : c ≠ '\\')
    (hends : ¬ (c = quoteChar double ∨ c = '\n')) :
    (literal double).read (String.singleton c) = .literal double := by
  rcases isPlainChar_or c with hplain | hspecial
  · rw [read_singleton hplain]
    rfl
  · cases double <;> rcases hspecial with rfl | rfl | rfl | rfl | rfl | rfl <;>
      first | decide | exact absurd rfl hbackslash | exact absurd (by decide) hends

/-- What is read over in a text block. -/
theorem read_textBlock (hbackslash : c ≠ '\\') (hquote : c ≠ '"') :
    textBlock.read (String.singleton c) = .textBlock := by
  rcases isPlainChar_or c with hplain | hspecial
  · rw [read_singleton hplain]
    rfl
  · rcases hspecial with rfl | rfl | rfl | rfl | rfl | rfl <;>
      first | decide | exact absurd rfl hbackslash | exact absurd rfl hquote

/-- One quote that is not the first of three says no more than what it leaves
behind when the reading settles. -/
theorem finds_quote_iff (hs : s = .quote ∨ s = .textQuote) (h : ¬ ['"', '"'] <+: cs) :
    s.settle.Finds cs ↔ s.Finds cs := by
  by_cases hhead : cs.head? = some '"'
  · -- There are two of them: a whole literal in code, and nothing in a text block.
    obtain ⟨rest, rfl⟩ := List.head?_eq_some_iff.1 hhead
    have hrest : ∀ c ∈ rest.head?, c ≠ '"' := by
      rintro c hc rfl
      obtain ⟨behind, rfl⟩ := List.head?_eq_some_iff.1 hc
      exact h (List.prefix_append ['"', '"'] behind)
    rw [finds_cons, finds_cons]
    rcases hs with rfl | rfl
    · exact finds_settle_iff (s := .quotes) hrest
    · exact (finds_settle_iff (s := .textQuote) hrest).symm.trans
        (finds_settle_iff (s := .textQuotes) hrest)
  · have hother : ∀ c ∈ cs.head?, c ≠ '"' := by
      rintro c hc rfl
      exact hhead hc
    rcases hs with rfl | rfl
    · exact finds_settle_iff hother
    · exact finds_settle_iff hother

end Progress

/-! ## Step by step -/

/-- What has been read where a mode begins. -/
def Mode.progress : Mode → Progress
  | .code => .code
  | .literal double => .literal double
  | .textBlock => .textBlock

namespace Lexer

open Progress

variable {l : Lexer} {c : Char} {rest : List Char}

/-- Reading the bytes from here on comes to a comment. -/
def Finds (l : Lexer) : Prop := l.mode.progress.Finds l.rest

/-- Where the text ends nothing is found. -/
theorem not_finds_of_rest_eq_nil (h : l.rest = []) : ¬ l.Finds := by
  obtain ⟨mode, rest⟩ := l
  obtain rfl : rest = [] := h
  intro hfinds
  have hcomment : mode.progress = .comment := hfinds
  cases mode <;> cases hcomment

/-- A comment begins with a slash that is continued. -/
theorem isAtComment_code_iff :
    (⟨.code, c :: rest⟩ : Lexer).IsAtComment ↔
      c = '/' ∧ ∃ d ∈ rest.head?, Progress.slashed.IsContinuedBy d := by
  cases rest with
  | nil => simp [IsAtComment]
  | cons d rest =>
    simp only [IsAtComment, List.cons_prefix_cons, List.nil_prefix, List.head?_cons,
      Option.mem_some_iff, IsContinuedBy]
    grind

/-- In code a comment may begin, or a literal, or a text block. -/
theorem finds_code_iff :
    (⟨.code, c :: rest⟩ : Lexer).Finds ↔
      (⟨.code, c :: rest⟩ : Lexer).IsAtComment ∨ (inCode c rest).Finds := by
  have hfinds : (⟨.code, c :: rest⟩ : Lexer).Finds ↔
      (Progress.code.read (String.singleton c)).Finds rest := finds_cons
  by_cases hslash : c = '/'
  · subst hslash
    have hread : Progress.code.read (String.singleton '/') = .slashed := by decide
    rw [hfinds, hread]
    by_cases hnext : ∃ d ∈ rest.head?, Progress.slashed.IsContinuedBy d
    · rw [isAtComment_code_iff]
      obtain ⟨d, hd, hcontinues⟩ := hnext
      obtain ⟨behind, rfl⟩ := List.head?_eq_some_iff.1 hd
      have hnext : Progress.slashed.read (String.singleton d) = .comment := by
        rcases hcontinues with rfl | rfl <;> decide
      rw [finds_cons, hnext]
      exact iff_of_true (finds_comment _) (.inl ⟨rfl, d, rfl, hcontinues⟩)
    · rw [isAtComment_code_iff, or_iff_right fun h => hnext h.2]
      exact (finds_settle_iff fun d hd hcontinues => hnext ⟨d, hd, hcontinues⟩).symm
  have hcomment : ¬ (⟨.code, c :: rest⟩ : Lexer).IsAtComment := fun h =>
    hslash (isAtComment_code_iff.1 h).1
  rw [or_iff_right hcomment, hfinds, inCode]
  split_ifs with hdouble hblock hsingle
  · subst hdouble
    obtain ⟨behind, rfl⟩ := hblock
    have hread : Progress.code.read (String.singleton '"') = .quote := by decide
    have hquote : Progress.quote.read (String.singleton '"') = .quotes := by decide
    have hquotes : Progress.quotes.read (String.singleton '"') = .textBlock := by decide
    rw [hread, List.cons_append, finds_cons, hquote, List.cons_append, finds_cons, hquotes]
    rfl
  · subst hdouble
    have hread : Progress.code.read (String.singleton '"') = .quote := by decide
    rw [hread]
    exact (finds_quote_iff (.inl rfl) hblock).symm
  · subst hsingle
    have hread : Progress.code.read (String.singleton '\'') = .literal false := by decide
    rw [hread]
    rfl
  · rw [read_harmless (.inl rfl) ⟨hslash, hdouble, hsingle⟩]
    rfl

theorem finds_literal_iff {double : Bool} :
    (⟨.literal double, c :: rest⟩ : Lexer).Finds ↔ (inLiteral double c rest).Finds := by
  have hfinds : (⟨.literal double, c :: rest⟩ : Lexer).Finds ↔
      ((Progress.literal double).read (String.singleton c)).Finds rest := finds_cons
  rw [hfinds, inLiteral]
  split_ifs with hbackslash hends
  · subst hbackslash
    have hread : (Progress.literal double).read (String.singleton '\\') = .escaped double := by
      cases double <;> decide
    rw [hread]
    cases rest with
    | nil =>
      refine iff_of_false (fun h => ?_) (not_finds_of_rest_eq_nil rfl)
      cases (h : Progress.escaped double = .comment)
    | cons d rest =>
      rw [finds_cons, read_escaped]
      rfl
  · have hread : (Progress.literal double).read (String.singleton c) = .code := by
      rcases hends with rfl | rfl <;> cases double <;> decide
    rw [hread]
    rfl
  · rw [read_literal hbackslash hends]
    rfl

theorem finds_textBlock_iff :
    (⟨.textBlock, c :: rest⟩ : Lexer).Finds ↔ (inTextBlock c rest).Finds := by
  have hfinds : (⟨.textBlock, c :: rest⟩ : Lexer).Finds ↔
      (Progress.textBlock.read (String.singleton c)).Finds rest := finds_cons
  rw [hfinds, inTextBlock]
  split_ifs with hbackslash hends
  · subst hbackslash
    have hread : Progress.textBlock.read (String.singleton '\\') = .textEscaped := by decide
    rw [hread]
    cases rest with
    | nil =>
      refine iff_of_false (fun h => ?_) (not_finds_of_rest_eq_nil rfl)
      cases (h : Progress.textEscaped = .comment)
    | cons d rest =>
      rw [finds_cons, read_textEscaped]
      rfl
  · obtain ⟨rfl, behind, rfl⟩ := hends
    have hread : Progress.textBlock.read (String.singleton '"') = .textQuote := by decide
    have hquote : Progress.textQuote.read (String.singleton '"') = .textQuotes := by decide
    have hquotes : Progress.textQuotes.read (String.singleton '"') = .code := by decide
    rw [hread, List.cons_append, finds_cons, hquote, List.cons_append, finds_cons, hquotes]
    rfl
  · by_cases hquote : c = '"'
    · subst hquote
      have hread : Progress.textBlock.read (String.singleton '"') = .textQuote := by decide
      rw [hread]
      exact (finds_quote_iff (.inr rfl) (fun hblock => hends ⟨rfl, hblock⟩)).symm
    · rw [read_textBlock hbackslash hquote]
      rfl

/-- **A comment is found here or from the next step on.** -/
theorem finds_iff (l : Lexer) : l.Finds ↔ l.IsAtComment ∨ l.step.Finds := by
  obtain ⟨mode, rest⟩ := l
  cases rest with
  | nil =>
    have hnot : ¬ (⟨mode, []⟩ : Lexer).IsAtComment := by simp [IsAtComment]
    rw [or_iff_right hnot]
    rfl
  | cons c rest =>
    cases mode with
    | code => exact finds_code_iff
    | literal double =>
      have hnot : ¬ (⟨.literal double, c :: rest⟩ : Lexer).IsAtComment := by simp [IsAtComment]
      rw [or_iff_right hnot]
      exact finds_literal_iff
    | textBlock =>
      have hnot : ¬ (⟨.textBlock, c :: rest⟩ : Lexer).IsAtComment := by simp [IsAtComment]
      rw [or_iff_right hnot]
      exact finds_textBlock_iff

/-- **A comment is found if and only if some step comes to one.** -/
theorem finds_iff_exists (l : Lexer) : l.Finds ↔ ∃ n, (step^[n] l).IsAtComment := by
  constructor
  · -- Each step uses characters up, and where there are none left nothing is found.
    intro hfinds
    induction hlength : l.rest.length using Nat.strongRecOn generalizing l with
    | _ length ih =>
      rcases l.finds_iff.1 hfinds with hhere | hstep
      · exact ⟨0, hhere⟩
      · by_cases hrest : l.rest = []
        · exact absurd hfinds (not_finds_of_rest_eq_nil hrest)
        · obtain ⟨n, hn⟩ := ih _ (hlength ▸ length_rest_step_lt hrest) l.step hstep rfl
          exact ⟨n + 1, by rwa [Function.iterate_succ_apply]⟩
  · rintro ⟨n, hn⟩
    induction n generalizing l with
    | zero => exact l.finds_iff.2 (.inl hn)
    | succ n ih =>
      rw [Function.iterate_succ_apply] at hn
      exact l.finds_iff.2 (.inr (ih l.step hn))

end Lexer

/-- **Searching for a comment byte by byte** never reads beside the bytes, and
finds one if and only if reading character by character comes to one. -/
theorem search_and_contains_iff_lexer (text : String) :
    searchFrom (Text.utf8 text) 0 = some (contains text) ∧
      (contains text = true ↔ ∃ n, (Lexer.step^[n] (Lexer.ofText text)).IsAtComment) := by
  have hsearch : beginsIn .code (Text.utf8 text) = contains text := by
    rw [contains_eq_read]
    exact Progress.foresees_eq .code _
  refine ⟨?_, ?_⟩
  · rw [searchFrom_eq, List.drop_zero, hsearch]
  · rw [← Lexer.finds_iff_exists, contains_eq_read, beq_iff_eq, Lexer.Finds, Progress.Finds,
      Lexer.ofText, String.ofList_toList]
    rfl

end Codemod.Comment
