import Codemod.Proofs.Comment
/-!
# Searching by position

Comments can be searched for with a position that moves over the bytes and
skips what is quoted. A backslash takes the position two bytes on, which may be
into the middle of a character, or behind the end. Every byte is read at a
checked position, and the search fails where there is none to read. It never
does (`Comment.searchFrom_eq`): from each position it comes to what begins in
the bytes that stand there.
-/

namespace Codemod.Comment

/-! ## The search -/

/-- What stands from a position on; behind the end there is no such thing. -/
def from? (bytes : Bytes) (i : Nat) : Option Bytes :=
  if i ≤ bytes.length then some (bytes.drop i) else none

/-- What a text block begins and ends with. -/
def blockQuotes : Bytes := [doubleQuote, doubleQuote, doubleQuote]

/-- The position behind a literal in which the search stands. -/
def skipLiteral (bytes : Bytes) (quote : UInt8) (i : Nat) : Option Nat :=
  if i < bytes.length then
    match bytes[i]? with
    | none => none
    | some b =>
      if b = backslash then skipLiteral bytes quote (i + 2)
      else if b = quote then some (i + 1)
      else if b = lineFeed then some (i + 1)
      else skipLiteral bytes quote (i + 1)
  else some i
termination_by bytes.length - i

/-- The position behind a text block in which the search stands. -/
def skipTextBlock (bytes : Bytes) (i : Nat) : Option Nat :=
  if i < bytes.length then
    match bytes[i]? with
    | none => none
    | some b =>
      if b = backslash then skipTextBlock bytes (i + 2)
      else
        match from? bytes i with
        | none => none
        | some rest =>
          if blockQuotes.isPrefixOf rest then some (i + 3) else skipTextBlock bytes (i + 1)
  else some i
termination_by bytes.length - i

/-- The position behind what the quote at the position begins. -/
def skipQuoted (bytes : Bytes) (quote : UInt8) (i : Nat) : Option Nat :=
  if quote = doubleQuote then
    match from? bytes i with
    | none => none
    | some rest =>
      if blockQuotes.isPrefixOf rest then skipTextBlock bytes (i + 3)
      else skipLiteral bytes quote (i + 1)
  else skipLiteral bytes quote (i + 1)

section

variable {bytes : Bytes} {quote b : UInt8} {i j : Nat}

theorem le_of_skipLiteral (h : skipLiteral bytes quote i = some j) : i ≤ j := by
  fun_induction skipLiteral bytes quote i with
  | case1 i _ _ => cases h
  | case2 i _ _ ih =>
    have := ih h
    omega
  | case3 i _ _ _ =>
    cases h
    omega
  | case4 i _ _ _ _ =>
    cases h
    omega
  | case5 i _ b _ _ _ _ ih =>
    have := ih h
    omega
  | case6 i _ =>
    cases h
    omega

theorem le_of_skipTextBlock (h : skipTextBlock bytes i = some j) : i ≤ j := by
  fun_induction skipTextBlock bytes i with
  | case1 i _ _ => cases h
  | case2 i _ _ ih =>
    have := ih h
    omega
  | case3 i _ b _ _ _ => cases h
  | case4 i _ b _ _ rest _ _ =>
    cases h
    omega
  | case5 i _ b _ _ rest _ _ ih =>
    have := ih h
    omega
  | case6 i _ =>
    cases h
    omega

/-- **What is quoted takes the search on.** -/
theorem lt_of_skipQuoted (h : skipQuoted bytes quote i = some j) : i < j := by
  unfold skipQuoted at h
  split at h
  · split at h
    · cases h
    · split at h
      · have := le_of_skipTextBlock h
        omega
      · exact le_of_skipLiteral h
  · exact le_of_skipLiteral h

end

/-- A comment begins at the position, at which the search is in code, or
anywhere behind it. -/
def searchFrom (bytes : Bytes) (i : Nat) : Option Bool :=
  if i < bytes.length then
    match bytes[i]? with
    | none => none
    | some b =>
      if b = slash ∧ (bytes[i + 1]? = some slash ∨ bytes[i + 1]? = some star) then some true
      else if b = doubleQuote ∨ b = singleQuote then
        match _h : skipQuoted bytes b i with
        | none => none
        | some j => searchFrom bytes j
      else searchFrom bytes (i + 1)
  else some false
termination_by bytes.length - i
decreasing_by
  · have := lt_of_skipQuoted _h
    omega
  · omega

/-! ## What it comes to -/

section

variable {bytes rest : Bytes} {quote b : UInt8} {i j : Nat}

theorem drop_eq_cons (h : bytes[i]? = some b) : bytes.drop i = b :: bytes.drop (i + 1) := by
  obtain ⟨hi, rfl⟩ := List.getElem?_eq_some_iff.1 h
  exact List.drop_eq_getElem_cons hi

theorem from?_of_lt (h : i < bytes.length) : from? bytes i = some (bytes.drop i) :=
  if_pos (Nat.le_of_lt h)

/-- Behind three quotes a text block is read. -/
theorem beginsIn_blockQuotes (rest : Bytes) :
    beginsIn .code (blockQuotes ++ rest) = beginsIn .textBlock rest := by
  rw [blockQuotes, List.cons_append, beginsIn.eq_def]
  rfl

/-- Three quotes end it. -/
theorem beginsIn_textBlock_blockQuotes (rest : Bytes) :
    beginsIn .textBlock (blockQuotes ++ rest) = beginsIn .code rest := by
  rw [blockQuotes, List.cons_append, beginsIn.eq_def]
  rfl

theorem isPrefixOf_blockQuotes_iff {c d : UInt8} :
    blockQuotes.isPrefixOf (doubleQuote :: c :: d :: rest) = true ↔
      c = doubleQuote ∧ d = doubleQuote := by
  rw [List.isPrefixOf_iff_prefix, blockQuotes]
  simp only [List.cons_prefix_cons, List.nil_prefix, true_and, and_true]
  exact and_congr eq_comm eq_comm

/-- With fewer quotes, a literal is read. -/
theorem beginsIn_doubleQuote_of_not_blockQuotes
    (h : ¬ blockQuotes.isPrefixOf (doubleQuote :: rest) = true) :
    beginsIn .code (doubleQuote :: rest) = beginsIn (.literal doubleQuote) rest := by
  rw [beginsIn.eq_def]
  rcases rest with _ | ⟨c, _ | ⟨d, rest⟩⟩
  · rfl
  · rfl
  · rw [isPrefixOf_blockQuotes_iff] at h
    simp [h, Progress.doubleQuote_ne_slash]

theorem beginsIn_textBlock_of_not_blockQuotes (hb : b ≠ backslash)
    (h : ¬ blockQuotes.isPrefixOf (b :: rest) = true) :
    beginsIn .textBlock (b :: rest) = beginsIn .textBlock rest := by
  rw [beginsIn.eq_def]
  by_cases hquote : b = doubleQuote
  · subst hquote
    rcases rest with _ | ⟨c, _ | ⟨d, rest⟩⟩
    · rfl
    · rfl
    · rw [isPrefixOf_blockQuotes_iff] at h
      simp [h, hb]
  · simp [hquote, hb]

/-- What begins no comment and no literal is passed. -/
theorem beginsIn_of_not_begins
    (hcomment : ¬ (b = slash ∧ (rest.head? = some slash ∨ rest.head? = some star)))
    (hquote : ¬ (b = doubleQuote ∨ b = singleQuote)) :
    beginsIn .code (b :: rest) = beginsIn .code rest := by
  rw [not_or] at hquote
  rw [beginsIn.eq_def]
  by_cases hslash : b = slash
  · subst hslash
    cases rest with
    | nil => rfl
    | cons c rest =>
      have hc : ¬ (c = slash ∨ c = star) := by simpa using hcomment
      rw [not_or] at hc
      simp [hc]
  · simp [hslash, hquote]

/-- The byte behind a backslash is read over, if there is one. -/
theorem beginsIn_backslash (place : Place) (hplace : place ≠ .code) (rest : Bytes) :
    beginsIn place (backslash :: rest) = beginsIn place (rest.drop 1) := by
  rw [beginsIn.eq_def]
  cases place with
  | code => exact absurd rfl hplace
  | literal quote => cases rest <;> simp [beginsIn]
  | textBlock => cases rest <;> simp [beginsIn]

/-- **A literal is skipped to where it ends**, and no byte is missed. -/
theorem exists_skipLiteral (bytes : Bytes) (quote : UInt8) (i : Nat) :
    ∃ j, skipLiteral bytes quote i = some j ∧
      beginsIn (.literal quote) (bytes.drop i) = beginsIn .code (bytes.drop j) := by
  fun_induction skipLiteral bytes quote i with
  | case1 i hi hnone =>
    rw [List.getElem?_eq_getElem hi] at hnone
    cases hnone
  | case2 i _ hb ih =>
    obtain ⟨j, hj, hends⟩ := ih
    refine ⟨j, hj, ?_⟩
    rw [drop_eq_cons hb, beginsIn_backslash _ (by simp), List.drop_drop]
    exact hends
  | case3 i _ hb hbackslash =>
    refine ⟨i + 1, rfl, ?_⟩
    rw [drop_eq_cons hb, beginsIn.eq_def]
    simp [hbackslash]
  | case4 i _ hb hbackslash hquote =>
    refine ⟨i + 1, rfl, ?_⟩
    rw [drop_eq_cons hb, beginsIn.eq_def]
    simp [hbackslash]
  | case5 i _ b hb hbackslash hquote hlineFeed ih =>
    obtain ⟨j, hj, hends⟩ := ih
    refine ⟨j, hj, ?_⟩
    rw [drop_eq_cons hb, beginsIn.eq_def]
    simp only [hbackslash, hquote, hlineFeed, or_self, if_false]
    exact hends
  | case6 i hi =>
    refine ⟨i, rfl, ?_⟩
    rw [List.drop_eq_nil_of_le (Nat.le_of_not_lt hi)]
    rfl

/-- **So is a text block.** -/
theorem exists_skipTextBlock (bytes : Bytes) (i : Nat) :
    ∃ j, skipTextBlock bytes i = some j ∧
      beginsIn .textBlock (bytes.drop i) = beginsIn .code (bytes.drop j) := by
  fun_induction skipTextBlock bytes i with
  | case1 i hi hnone =>
    rw [List.getElem?_eq_getElem hi] at hnone
    cases hnone
  | case2 i _ hb ih =>
    obtain ⟨j, hj, hends⟩ := ih
    refine ⟨j, hj, ?_⟩
    rw [drop_eq_cons hb, beginsIn_backslash _ (by simp), List.drop_drop]
    exact hends
  | case3 i hi b _ _ hnone =>
    rw [from?_of_lt hi] at hnone
    cases hnone
  | case4 i hi b hb _ rest hrest hquotes =>
    obtain rfl : bytes.drop i = rest := Option.some.inj ((from?_of_lt hi).symm.trans hrest)
    refine ⟨i + 3, rfl, ?_⟩
    obtain ⟨behind, hbehind⟩ := List.isPrefixOf_iff_prefix.1 hquotes
    rw [← List.drop_drop, ← hbehind, beginsIn_textBlock_blockQuotes]
    rfl
  | case5 i hi b hb hbackslash rest hrest hquotes ih =>
    obtain rfl : bytes.drop i = rest := Option.some.inj ((from?_of_lt hi).symm.trans hrest)
    obtain ⟨j, hj, hends⟩ := ih
    refine ⟨j, hj, ?_⟩
    rw [drop_eq_cons hb] at hquotes ⊢
    rw [beginsIn_textBlock_of_not_blockQuotes hbackslash hquotes]
    exact hends
  | case6 i hi =>
    refine ⟨i, rfl, ?_⟩
    rw [List.drop_eq_nil_of_le (Nat.le_of_not_lt hi)]
    rfl

/-- And whatever a quote in code begins. -/
theorem exists_skipQuoted (hb : bytes[i]? = some b) (hquote : b = doubleQuote ∨ b = singleQuote) :
    ∃ j, skipQuoted bytes b i = some j ∧
      beginsIn .code (bytes.drop i) = beginsIn .code (bytes.drop j) := by
  obtain ⟨hi, -⟩ := List.getElem?_eq_some_iff.1 hb
  obtain ⟨j, hj, hends⟩ := exists_skipLiteral bytes b (i + 1)
  unfold skipQuoted
  split_ifs with hdouble
  · subst hdouble
    rw [from?_of_lt hi]
    dsimp only
    split_ifs with hquotes
    · obtain ⟨k, hk, hends⟩ := exists_skipTextBlock bytes (i + 3)
      refine ⟨k, hk, ?_⟩
      obtain ⟨behind, hbehind⟩ := List.isPrefixOf_iff_prefix.1 hquotes
      rw [← hends, ← List.drop_drop, ← hbehind, beginsIn_blockQuotes]
      rfl
    · refine ⟨j, hj, ?_⟩
      rw [drop_eq_cons hb] at hquotes ⊢
      rw [beginsIn_doubleQuote_of_not_blockQuotes hquotes, hends]
  · obtain rfl : b = singleQuote := hquote.resolve_left hdouble
    refine ⟨j, hj, ?_⟩
    rw [drop_eq_cons hb, ← hends, beginsIn.eq_def]
    rfl

/-- **The search reads no byte that is not there**, and comes to what begins in
the bytes from its position on. -/
theorem searchFrom_eq (bytes : Bytes) (i : Nat) :
    searchFrom bytes i = some (beginsIn .code (bytes.drop i)) := by
  fun_induction searchFrom bytes i with
  | case1 i hi hnone =>
    rw [List.getElem?_eq_getElem hi] at hnone
    cases hnone
  | case2 i hi b hb hcomment =>
    obtain ⟨rfl, hnext⟩ := hcomment
    congr 1
    rcases hnext with hnext | hnext
    · rw [drop_eq_cons hb, drop_eq_cons hnext, beginsIn.eq_def]
      rfl
    · rw [drop_eq_cons hb, drop_eq_cons hnext, beginsIn.eq_def]
      rfl
  | case3 i hi b hb hcomment hquote hnone =>
    obtain ⟨j, hj, -⟩ := exists_skipQuoted hb hquote
    rw [hnone] at hj
    cases hj
  | case4 i hi b hb hcomment hquote j hj ih =>
    obtain ⟨k, hk, hends⟩ := exists_skipQuoted hb hquote
    obtain rfl : j = k := Option.some.inj (hj.symm.trans hk)
    rw [ih, hends]
  | case5 i hi b hb hcomment hquote ih =>
    rw [← List.head?_drop] at hcomment
    rw [ih, drop_eq_cons hb, beginsIn_of_not_begins hcomment hquote]
  | case6 i hi =>
    rw [List.drop_eq_nil_of_le (Nat.le_of_not_lt hi)]
    rfl

end

end Codemod.Comment
