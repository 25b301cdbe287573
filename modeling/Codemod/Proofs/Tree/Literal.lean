import Codemod.Proofs.Comment
/-!
# Reading over literals

A literal is written so that it ends where the reading for comments takes it to
end, whatever characters it holds (`Comment.isQuiet_quoted`). Text without slashes
and quotes is read over as well (`Comment.IsHarmless.stays`). Texts of these kinds
can be put together when something stands between two literals: an empty one
leaves open whether a text block begins (`Comment.IsCode`).
-/

namespace Codemod.Comment

open Progress

/-! ## Characters -/

/-- No byte of a character beyond ASCII begins or ends anything. -/
theorem isPlain_of_le {b : UInt8} (h : 128 ≤ b.toNat) : isPlain b = true := by
  have hne (special : UInt8) (hlt : special.toNat < 128) : b ≠ special := by
    rintro rfl
    omega
  simp only [isPlain, Bool.and_eq_true, bne_iff_ne]
  exact ⟨⟨⟨⟨⟨hne slash (by decide), hne star (by decide)⟩, hne doubleQuote (by decide)⟩,
    hne singleQuote (by decide)⟩, hne backslash (by decide)⟩, hne lineFeed (by decide)⟩

/-- An ASCII character is its own byte, and others have bytes of their own. -/
theorem utf8_singleton_cases (c : Char) :
    (c.val.toNat ≤ 127 ∧ Text.utf8 (String.singleton c) = [UInt8.ofNat c.val.toNat]) ∨
      ∀ b ∈ Text.utf8 (String.singleton c), 128 ≤ b.toNat := by
  rw [Text.utf8_singleton, String.utf8EncodeChar]
  split
  · exact .inl ⟨‹_›, rfl⟩
  refine .inr ?_
  -- The first byte of the character says how many there are.
  split
  · simp only [List.forall_mem_cons, UInt8.toNat_ofNat', List.not_mem_nil, false_imp_iff,
      imp_true_iff, and_true]
    omega
  split
  · simp only [List.forall_mem_cons, UInt8.toNat_ofNat', List.not_mem_nil, false_imp_iff,
      imp_true_iff, and_true]
    omega
  · simp only [List.forall_mem_cons, UInt8.toNat_ofNat', List.not_mem_nil, false_imp_iff,
      imp_true_iff, and_true]
    omega

/-- The character begins and ends nothing. -/
def IsPlainChar (c : Char) : Prop :=
  c ≠ '/' ∧ c ≠ '*' ∧ c ≠ '"' ∧ c ≠ '\'' ∧ c ≠ '\\' ∧ c ≠ '\n'

instance (c : Char) : Decidable (IsPlainChar c) := inferInstanceAs (Decidable (_ ∧ _))

/-- Six characters do. -/
theorem isPlainChar_or (c : Char) :
    IsPlainChar c ∨ c = '/' ∨ c = '*' ∨ c = '"' ∨ c = '\'' ∨ c = '\\' ∨ c = '\n' := by
  unfold IsPlainChar
  tauto

theorem isPlain_of_mem_utf8 {c : Char} (hc : IsPlainChar c) {b : UInt8}
    (hb : b ∈ Text.utf8 (String.singleton c)) : isPlain b = true := by
  rcases utf8_singleton_cases c with ⟨hascii, hbytes⟩ | hbeyond
  · rw [hbytes] at hb
    obtain rfl := List.mem_singleton.1 hb
    have hne (special : Char) (hlt : special.val.toNat < 256) (hother : c ≠ special) :
        UInt8.ofNat c.val.toNat ≠ UInt8.ofNat special.val.toNat := by
      intro hsame
      have hval := congrArg UInt8.toNat hsame
      rw [UInt8.toNat_ofNat', UInt8.toNat_ofNat', Nat.mod_eq_of_lt (by omega),
        Nat.mod_eq_of_lt (by omega)] at hval
      exact hother (Char.ext (UInt32.toNat_inj.1 hval))
    obtain ⟨hslash, hstar, hdouble, hsingle, hbackslash, hlineFeed⟩ := hc
    simp only [isPlain, Bool.and_eq_true, bne_iff_ne]
    exact ⟨⟨⟨⟨⟨hne '/' (by decide) hslash, hne '*' (by decide) hstar⟩,
      hne '"' (by decide) hdouble⟩, hne '\'' (by decide) hsingle⟩,
      hne '\\' (by decide) hbackslash⟩, hne '\n' (by decide) hlineFeed⟩
  · exact isPlain_of_le (hbeyond b hb)

/-- **A character that begins and ends nothing settles the reading.** -/
theorem Progress.read_singleton {c : Char} (hc : IsPlainChar c) (s : Progress) :
    s.read (String.singleton c) = s.settle := by
  have hsettles : ∀ (bytes : List UInt8) (s : Progress), bytes ≠ [] →
      (∀ b ∈ bytes, isPlain b = true) → bytes.foldl next s = s.settle := by
    intro bytes
    induction bytes with
    | nil => exact fun s hne _ => absurd rfl hne
    | cons b bytes ih =>
      intro s _ hplain
      obtain ⟨hb, hrest⟩ := List.forall_mem_cons.1 hplain
      rw [List.foldl_cons, next_of_isPlain hb]
      cases bytes with
      | nil => rfl
      | cons b' bytes => rw [ih _ (List.cons_ne_nil _ _) hrest, settle_settle]
  have hne : Text.utf8 (String.singleton c) ≠ [] := by
    rw [Text.utf8_singleton]
    exact String.utf8EncodeChar_ne_nil
  exact hsettles _ s hne fun b hb => isPlain_of_mem_utf8 hc hb

theorem Progress.read_cons (s : Progress) (c : Char) (cs : List Char) :
    s.read (String.ofList (c :: cs)) = (s.read (String.singleton c)).read (String.ofList cs) := by
  rw [String.ofList_cons, read_append]

/-- The character has another meaning behind what was read than it has where the
reading is settled. -/
def Progress.IsContinuedBy : Progress → Char → Prop
  | .slashed, c => c = '/' ∨ c = '*'
  | .quote, c | .quotes, c | .textQuote, c | .textQuotes, c => c = '"'
  | .escaped _, _ | .textEscaped, _ => True
  | .code, _ | .literal _, _ | .textBlock, _ | .comment, _ => False

/-- **What was begun and is not continued** is as if it had not been begun. -/
theorem Progress.read_of_not_isContinuedBy {s : Progress} {c : Char} (h : ¬ s.IsContinuedBy c)
    (cs : List Char) :
    s.read (String.ofList (c :: cs)) = s.settle.read (String.ofList (c :: cs)) := by
  rw [read_cons, read_cons]
  congr 1
  rcases isPlainChar_or c with hplain | hspecial
  · rw [read_singleton hplain, read_singleton hplain, settle_settle]
  · cases s with
    | code | literal _ | textBlock | comment => rfl
    | escaped _ | textEscaped => exact absurd trivial h
    | slashed =>
      obtain ⟨hslash, hstar⟩ := not_or.1 h
      rcases hspecial with rfl | rfl | rfl | rfl | rfl | rfl <;>
        first | decide | exact absurd rfl hslash | exact absurd rfl hstar
    | quote | quotes | textQuote | textQuotes =>
      rcases hspecial with rfl | rfl | rfl | rfl | rfl | rfl <;>
        first | decide | exact absurd rfl h

/-! ## Code -/

/-- The reading is in code, perhaps right behind an empty literal. -/
def Progress.IsCode (s : Progress) : Prop := s = .code ∨ s = .quotes

instance (s : Progress) : Decidable s.IsCode := inferInstanceAs (Decidable (_ ∨ _))

/-- The text is code with no comment in it. -/
def IsQuiet (t : String) : Prop := (Progress.code.read t).IsCode

/-- The text is such code wherever it stands in code. -/
def Stays (t : String) : Prop := ∀ s : Progress, s.IsCode → (s.read t).IsCode

/-- Behind the text anything may stand. -/
def Separates (t : String) : Prop := ∀ s : Progress, s.IsCode → s.read t = .code

section

variable {t u w : String} {ts : List String}

theorem separates_iff :
    Separates t ↔ Progress.code.read t = .code ∧ Progress.quotes.read t = .code := by
  constructor
  · exact fun h => ⟨h _ (.inl rfl), h _ (.inr rfl)⟩
  · rintro h s (rfl | rfl)
    · exact h.1
    · exact h.2

instance (t : String) : Decidable (Separates t) := decidable_of_iff _ separates_iff.symm

instance (t : String) : Decidable (IsQuiet t) :=
  inferInstanceAs (Decidable (Progress.IsCode _))

/-- Code without a comment contains none. -/
theorem IsQuiet.contains_eq_false (h : IsQuiet t) : contains t = false := by
  rw [contains_eq_read]
  rcases h with h | h <;> rw [h] <;> rfl

theorem Stays.isQuiet (h : Stays t) : IsQuiet t := h _ (.inl rfl)

theorem Separates.stays (h : Separates t) : Stays t := fun s hs => .inl (h s hs)

theorem IsQuiet.append (h : IsQuiet t) (h' : Stays u) : IsQuiet (t ++ u) := by
  rw [IsQuiet, read_append]
  exact h' _ h

theorem Stays.append (h : Stays t) (h' : Stays u) : Stays (t ++ u) := by
  intro s hs
  rw [read_append]
  exact h' _ (h s hs)

theorem Stays.append_separates (h : Stays t) (h' : Separates u) : Separates (t ++ u) := by
  intro s hs
  rw [read_append]
  exact h' _ (h s hs)

/-- **Whatever is quiet may stand behind what separates.** -/
theorem Separates.append (h : Separates t) (h' : IsQuiet u) : Stays (t ++ u) := by
  intro s hs
  rw [read_append, h s hs]
  exact h'

/-- A separator may stand between what is quiet. -/
theorem IsQuiet.append_append (h : IsQuiet t) (hw : Separates w) (h' : IsQuiet u) :
    IsQuiet (t ++ w ++ u) := by
  rw [String.append_assoc]
  exact h.append (hw.append h')

theorem isQuiet_intercalate (hw : Separates w) (h : ∀ t ∈ ts, IsQuiet t) :
    IsQuiet (w.intercalate ts) := by
  induction ts with
  | nil => exact .inl rfl
  | cons t ts ih =>
    obtain ⟨hfirst, hrest⟩ := List.forall_mem_cons.1 h
    cases ts with
    | nil => simpa using hfirst
    | cons u ts =>
      rw [String.intercalate_cons_cons]
      exact hfirst.append_append hw (ih hrest)

theorem stays_join (h : ∀ t ∈ ts, Stays t) : Stays (String.join ts) := by
  induction ts with
  | nil => exact fun _ hs => hs
  | cons t ts ih =>
    obtain ⟨hfirst, hrest⟩ := List.forall_mem_cons.1 h
    rw [String.join_cons]
    exact hfirst.append (ih hrest)

/-! ## Text without slashes and quotes -/

/-- No character of the text can begin a comment or a literal. -/
def IsHarmless (t : String) : Prop := ∀ c ∈ t.toList, c ≠ '/' ∧ c ≠ '"' ∧ c ≠ '\''

instance (t : String) : Decidable (IsHarmless t) := List.decidableBAll _ _

theorem isHarmless_empty : IsHarmless "" := by decide

theorem IsHarmless.append (h : IsHarmless t) (h' : IsHarmless u) : IsHarmless (t ++ u) := by
  rw [IsHarmless, String.toList_append]
  exact List.forall_mem_append.2 ⟨h, h'⟩

theorem isHarmless_intercalate (hw : IsHarmless w) (h : ∀ t ∈ ts, IsHarmless t) :
    IsHarmless (w.intercalate ts) := by
  induction ts with
  | nil => exact isHarmless_empty
  | cons t ts ih =>
    obtain ⟨hfirst, hrest⟩ := List.forall_mem_cons.1 h
    cases ts with
    | nil => simpa using hfirst
    | cons u ts =>
      rw [String.intercalate_cons_cons]
      exact (hfirst.append hw).append (ih hrest)

/-- The last segment of a name has none but characters of the name. -/
theorem IsHarmless.simple (h : IsHarmless t) : IsHarmless (Name.simple t) := by
  intro c hc
  rw [Name.simple, String.toList_ofList, Name.afterLast, List.mem_reverse] at hc
  exact h c (List.mem_reverse.1 ((List.takeWhile_sublist _).subset hc))

theorem Progress.read_harmless {s : Progress} (hs : s.IsCode) {c : Char}
    (hc : c ≠ '/' ∧ c ≠ '"' ∧ c ≠ '\'') : s.read (String.singleton c) = .code := by
  by_cases hplain : IsPlainChar c
  · rw [read_singleton hplain]
    rcases hs with rfl | rfl <;> rfl
  · -- Stars, backslashes and line breaks mean nothing in code.
    have hspecial : c = '*' ∨ c = '\\' ∨ c = '\n' := by
      unfold IsPlainChar at hplain
      tauto
    rcases hs with rfl | rfl <;> rcases hspecial with rfl | rfl | rfl <;> decide

/-- **Behind harmless text anything may stand**, if there is any of it. -/
theorem IsHarmless.separates (h : IsHarmless t) (hne : t ≠ "") : Separates t := by
  have hread : ∀ (cs : List Char) (s : Progress), s.IsCode →
      (∀ c ∈ cs, c ≠ '/' ∧ c ≠ '"' ∧ c ≠ '\'') → cs ≠ [] → s.read (String.ofList cs) = .code := by
    intro cs
    induction cs with
    | nil => exact fun s _ _ hne => absurd rfl hne
    | cons c cs ih =>
      intro s hs hcs _
      obtain ⟨hc, hrest⟩ := List.forall_mem_cons.1 hcs
      rw [read_cons, read_harmless hs hc]
      cases cs with
      | nil => rfl
      | cons d cs => exact ih .code (.inl rfl) hrest (List.cons_ne_nil _ _)
  intro s hs
  have hchars : t.toList ≠ [] := fun hnil => hne (String.toList_eq_nil_iff.1 hnil)
  rw [← String.ofList_toList (s := t)]
  exact hread t.toList s hs h hchars

theorem IsHarmless.stays (h : IsHarmless t) : Stays t := by
  by_cases hempty : t = ""
  · subst hempty
    exact fun _ hs => hs
  · exact (h.separates hempty).stays

theorem IsHarmless.isQuiet (h : IsHarmless t) : IsQuiet t := h.stays.isQuiet

end

/-! ## Literals -/

/-- The character that ends a literal. -/
def quoteChar (double : Bool) : Char := if double then '"' else '\''

/-- **An escaped character is read over** in a literal. -/
theorem Progress.read_escapeChar (double : Bool) (c : Char) :
    (literal double).read (String.ofList (Text.escapeChar (quoteChar double) c)) =
      .literal double := by
  unfold Text.escapeChar
  split_ifs with hbackslash hlineFeed htab hreturn hquote
  · cases double <;> decide
  · cases double <;> decide
  · cases double <;> decide
  · cases double <;> decide
  · subst hquote
    cases double <;> decide
  · rw [← String.singleton_eq_ofList]
    by_cases hplain : IsPlainChar c
    · rw [read_singleton hplain]
      rfl
    · -- What is left is another quote, or would begin a comment in code.
      have hspecial : c = '/' ∨ c = '*' ∨ c = '"' ∨ c = '\'' := by
        unfold IsPlainChar at hplain
        tauto
      cases double <;> rcases hspecial with rfl | rfl | rfl | rfl <;>
        first | decide | exact absurd rfl hquote

theorem Progress.read_escapeChars (double : Bool) (cs : List Char) :
    (literal double).read (String.ofList (cs.flatMap (Text.escapeChar (quoteChar double)))) =
      .literal double := by
  induction cs with
  | nil => rfl
  | cons c cs ih => rw [List.flatMap_cons, String.ofList_append, read_append, read_escapeChar, ih]

/-- No escaped character begins with a double quote. -/
theorem exists_escapeChar (c : Char) :
    ∃ d ds, Text.escapeChar '"' c = d :: ds ∧ d ≠ '"' := by
  unfold Text.escapeChar
  split_ifs with hbackslash hlineFeed htab hreturn hquote
  all_goals first
    | exact ⟨_, _, rfl, by decide⟩
    | exact ⟨c, [], rfl, hquote⟩

/-- **A literal is code with no comment in it**, whatever it holds. -/
theorem isQuiet_quoted (double : Bool) (s : String) :
    IsQuiet (Text.quoted (quoteChar double) s) := by
  rw [IsQuiet, Text.quoted, read_append, read_append, Text.escape]
  cases double with
  | false =>
    have hopen : Progress.code.read (String.singleton (quoteChar false)) = .literal false := by
      decide
    rw [hopen, read_escapeChars]
    decide
  | true =>
    have hopen : Progress.code.read (String.singleton (quoteChar true)) = .quote := by decide
    rw [hopen]
    cases hchars : s.toList with
    | nil => decide
    | cons c cs =>
      obtain ⟨d, ds, hescape, hd⟩ := exists_escapeChar c
      have hquote : Progress.quote.read (String.ofList ((c :: cs).flatMap
          (Text.escapeChar (quoteChar true)))) = .literal true := by
        have hliteral := read_escapeChars true (c :: cs)
        rw [List.flatMap_cons] at hliteral ⊢
        rw [show Text.escapeChar (quoteChar true) c = d :: ds from hescape, List.cons_append]
          at hliteral ⊢
        rw [read_of_not_isContinuedBy (s := .quote) hd]
        exact hliteral
      rw [hquote]
      decide

/-! ## Numbers -/

theorem ne_of_isDigit {c : Char} (h : c.isDigit = true) : c ≠ '/' ∧ c ≠ '"' ∧ c ≠ '\'' := by
  refine ⟨?_, ?_, ?_⟩ <;> rintro rfl <;> exact absurd h (by decide)

/-- A decimal is written with digits and points. -/
theorem isDigit_or_eq_of_mem_positional {d : Decimal} {c : Char}
    (h : c ∈ (Decimal.positional d).toList) : c.isDigit = true ∨ c = '.' := by
  have hdigits : ∀ c ∈ Nat.toDigits 10 d.digits, c.isDigit = true := fun c hc =>
    Nat.isDigit_of_mem_toDigits (by decide) (by decide) hc
  have hzeros (k : Nat) : ∀ c ∈ List.replicate k '0', c.isDigit = true := by
    intro c hc
    rw [List.eq_of_mem_replicate hc]
    rfl
  unfold Decimal.positional at h
  dsimp only at h
  split at h
  · rw [String.toList_ofList] at h
    rcases List.mem_append.1 h with hc | hc
    · exact .inl (hdigits c hc)
    · exact .inl (hzeros _ c hc)
  · -- The digits with zeros before them, and the point between two of them.
    have hpadded :
        ∀ c ∈ List.replicate ((-d.exponent).toNat + 1 - (Nat.toDigits 10 d.digits).length) '0' ++
          Nat.toDigits 10 d.digits, c.isDigit = true := fun c hc =>
      (List.mem_append.1 hc).elim (hzeros _ c) (hdigits c)
    rw [String.toList_ofList] at h
    rcases List.mem_append.1 h with hc | hc
    · exact .inl (hpadded c (List.mem_of_mem_take hc))
    · rcases List.mem_cons.1 hc with rfl | hc
      · exact .inr rfl
      · exact .inl (hpadded c (List.mem_of_mem_drop hc))

theorem isHarmless_positional (d : Decimal) : IsHarmless (Decimal.positional d) := by
  intro c hc
  rcases isDigit_or_eq_of_mem_positional hc with hdigit | rfl
  · exact ne_of_isDigit hdigit
  · decide

theorem isHarmless_floatSource (x : Double) : IsHarmless (Literal.floatSource x) := by
  have hsign : IsHarmless (if x.isNegative then "-" else "") := by split <;> decide
  unfold Literal.floatSource
  dsimp only
  split
  · decide
  split
  · exact hsign.append (by decide)
  split
  · exact hsign.append (by decide)
  · refine (hsign.append (isHarmless_positional _)).append ?_
    split <;> decide

theorem isHarmless_toString_int (n : Int) : IsHarmless (toString n) := by
  have hrepr (m : Nat) : IsHarmless m.repr := by
    intro c hc
    rw [Nat.repr_eq_ofList_toDigits, String.toList_ofList] at hc
    exact ne_of_isDigit (Nat.isDigit_of_mem_toDigits (by decide) (by decide) hc)
  rw [Int.toString_eq_repr, Int.repr_eq_if]
  split
  · exact hrepr _
  · exact IsHarmless.append (by decide) (hrepr _)

/-- **Every literal is code with no comment in it.** -/
theorem isQuiet_toSource (l : Literal) : IsQuiet l.toSource := by
  cases l with
  | int n => exact (isHarmless_toString_int n).isQuiet
  | float x => exact (isHarmless_floatSource x).isQuiet
  | bool b => cases b <;> decide
  | char c => exact isQuiet_quoted false _
  | str s => exact isQuiet_quoted true s
  | null => decide

end Codemod.Comment
