import Codemod.Comment
import Codemod.Proofs.Template.Windows
import Codemod.Text.Utf8
import Mathlib.Data.List.Forall2
/-!
# Looking for comments

Whether a text contains a comment can be found by reading it byte by byte and
keeping of what was read only a `Comment.Progress` (`Comment.contains_eq_read`).
After a byte that neither begins nor ends anything the reading is settled, and
there a parenthesis makes no difference any more. So two texts may be read alike
up to the next such byte (`Comment.Alike`), and with such bytes between them
texts that are read alike make up texts that are read alike.
-/

namespace Codemod.Comment

/-! ## Reading byte by byte -/

/-- What has been read, as far as it decides what the next bytes mean. -/
inductive Progress where
  /-- Code. -/
  | code
  /-- A slash in code. -/
  | slashed
  /-- One double quote in code. -/
  | quote
  /-- Two double quotes in code. -/
  | quotes
  /-- A literal, in double or in single quotes. -/
  | literal (double : Bool)
  /-- A backslash in a literal. -/
  | escaped (double : Bool)
  /-- A text block. -/
  | textBlock
  /-- A backslash in a text block. -/
  | textEscaped
  /-- One double quote in a text block. -/
  | textQuote
  /-- Two double quotes in a text block. -/
  | textQuotes
  /-- The beginning of a comment. -/
  | comment
  deriving DecidableEq

namespace Progress

/-- The quote that ends a literal. -/
def quoteOf (double : Bool) : UInt8 := if double then doubleQuote else singleQuote

/-- What a byte of code makes of it. -/
def inCode (b : UInt8) : Progress :=
  if b = slash then .slashed
  else if b = doubleQuote then .quote
  else if b = singleQuote then .literal false
  else .code

/-- What a byte of a literal makes of it. -/
def inLiteral (double : Bool) (b : UInt8) : Progress :=
  if b = backslash then .escaped double
  else if b = quoteOf double ∨ b = lineFeed then .code
  else .literal double

/-- What a byte of a text block makes of it. -/
def inTextBlock (b : UInt8) : Progress :=
  if b = backslash then .textEscaped
  else if b = doubleQuote then .textQuote
  else .textBlock

/-- What has been read with one more byte. -/
def next : Progress → UInt8 → Progress
  | .code, b => inCode b
  | .slashed, b => if b = slash ∨ b = star then .comment else inCode b
  | .quote, b => if b = doubleQuote then .quotes else inLiteral true b
  | .quotes, b => if b = doubleQuote then .textBlock else inCode b
  | .literal double, b => inLiteral double b
  | .escaped double, _ => .literal double
  | .textBlock, b => inTextBlock b
  | .textEscaped, _ => .textBlock
  | .textQuote, b => if b = doubleQuote then .textQuotes else inTextBlock b
  | .textQuotes, b => if b = doubleQuote then .code else inTextBlock b
  | .comment, _ => .comment

/-- Some comment has begun, or begins in the bytes to come. -/
def foresees : Progress → List UInt8 → Bool
  | .code, rest => beginsIn .code rest
  | .slashed, rest => beginsIn .code (slash :: rest)
  | .quote, rest => beginsIn .code (doubleQuote :: rest)
  | .quotes, rest => beginsIn .code (doubleQuote :: doubleQuote :: rest)
  | .literal double, rest => beginsIn (.literal (quoteOf double)) rest
  | .escaped double, rest => beginsIn (.literal (quoteOf double)) (backslash :: rest)
  | .textBlock, rest => beginsIn .textBlock rest
  | .textEscaped, rest => beginsIn .textBlock (backslash :: rest)
  | .textQuote, rest => beginsIn .textBlock (doubleQuote :: rest)
  | .textQuotes, rest => beginsIn .textBlock (doubleQuote :: doubleQuote :: rest)
  | .comment, _ => true

@[simp] theorem doubleQuote_ne_slash : doubleQuote ≠ slash := by decide
@[simp] theorem doubleQuote_ne_backslash : doubleQuote ≠ backslash := by decide
@[simp] theorem singleQuote_ne_slash : singleQuote ≠ slash := by decide
@[simp] theorem singleQuote_ne_doubleQuote : singleQuote ≠ doubleQuote := by decide

theorem foresees_inCode (b : UInt8) (rest : List UInt8) :
    (inCode b).foresees rest = beginsIn .code (b :: rest) := by
  unfold inCode
  split_ifs with hslash hdouble hsingle
  · rw [hslash, foresees]
  · rw [hdouble, foresees]
  · rw [hsingle, beginsIn.eq_def]
    simp [foresees, quoteOf]
  · rw [beginsIn.eq_def]
    simp [hslash, hdouble, hsingle, foresees]

theorem foresees_inLiteral (double : Bool) (b : UInt8) (rest : List UInt8) :
    (inLiteral double b).foresees rest = beginsIn (.literal (quoteOf double)) (b :: rest) := by
  unfold inLiteral
  split_ifs with hbackslash hends
  · rw [hbackslash, foresees]
  · rw [beginsIn.eq_def]
    simp [hbackslash, hends, foresees]
  · rw [beginsIn.eq_def]
    simp [hbackslash, hends, foresees]

theorem foresees_inTextBlock (b : UInt8) (rest : List UInt8) :
    (inTextBlock b).foresees rest = beginsIn .textBlock (b :: rest) := by
  unfold inTextBlock
  split_ifs with hbackslash hdouble
  · rw [hbackslash, foresees]
  · rw [hdouble, foresees]
  · rw [beginsIn.eq_def]
    simp [hbackslash, hdouble, foresees]

/-- Three double quotes are needed for a text block. -/
theorem beginsIn_doubleQuote {b : UInt8} (h : b ≠ doubleQuote) (rest : List UInt8) :
    beginsIn .code (doubleQuote :: b :: rest) = beginsIn (.literal doubleQuote) (b :: rest) := by
  rw [beginsIn.eq_def]
  cases rest <;> simp [h]

/-- Two double quotes in code are a literal. -/
theorem beginsIn_doubleQuotes {b : UInt8} (h : b ≠ doubleQuote) (rest : List UInt8) :
    beginsIn .code (doubleQuote :: doubleQuote :: b :: rest) = beginsIn .code (b :: rest) := by
  rw [beginsIn.eq_def]
  simp only [doubleQuote_ne_slash, h, if_false, if_true, and_false]
  rw [beginsIn.eq_def]
  simp

theorem beginsIn_textBlock_doubleQuote {b : UInt8} (h : b ≠ doubleQuote) (rest : List UInt8) :
    beginsIn .textBlock (doubleQuote :: b :: rest) = beginsIn .textBlock (b :: rest) := by
  rw [beginsIn.eq_def]
  cases rest <;> simp [h]

theorem beginsIn_textBlock_doubleQuotes {b : UInt8} (h : b ≠ doubleQuote) (rest : List UInt8) :
    beginsIn .textBlock (doubleQuote :: doubleQuote :: b :: rest) =
      beginsIn .textBlock (b :: rest) := by
  rw [← beginsIn_textBlock_doubleQuote h, beginsIn.eq_def]
  simp [h]

/-- **What comes is foreseen byte by byte.** -/
theorem foresees_next (s : Progress) (b : UInt8) (rest : List UInt8) :
    (s.next b).foresees rest = s.foresees (b :: rest) := by
  cases s
  case code => exact foresees_inCode b rest
  case literal double => exact foresees_inLiteral double b rest
  case textBlock => exact foresees_inTextBlock b rest
  case comment => rfl
  case escaped | textEscaped => simp [next, foresees, beginsIn]
  case slashed =>
    rw [next, foresees, beginsIn.eq_def _ (slash :: _)]
    split_ifs with h
    · rcases h with rfl | rfl <;> simp [foresees]
    · rw [foresees_inCode]
      rw [not_or] at h
      simp [h]
  case quote =>
    rw [next]
    split_ifs with h
    · rw [h]
      rfl
    · rw [foresees_inLiteral]
      exact (beginsIn_doubleQuote h rest).symm
  case quotes =>
    rw [next]
    split_ifs with h
    · rw [h, foresees, foresees, beginsIn.eq_def _ (doubleQuote :: _)]
      simp
    · rw [foresees_inCode]
      exact (beginsIn_doubleQuotes h rest).symm
  case textQuote =>
    rw [next]
    split_ifs with h
    · rw [h]
      rfl
    · rw [foresees_inTextBlock]
      exact (beginsIn_textBlock_doubleQuote h rest).symm
  case textQuotes =>
    rw [next]
    split_ifs with h
    · rw [h, foresees, foresees, beginsIn.eq_def _ (doubleQuote :: _)]
      simp
    · rw [foresees_inTextBlock]
      exact (beginsIn_textBlock_doubleQuotes h rest).symm

theorem foresees_nil (s : Progress) : s.foresees [] = (s == .comment) := by
  cases s
  case literal double | escaped double => cases double <;> rfl
  all_goals rfl

theorem foresees_eq (s : Progress) (bytes : List UInt8) :
    s.foresees bytes = (bytes.foldl next s == .comment) := by
  induction bytes generalizing s with
  | nil => exact s.foresees_nil
  | cons b bytes ih => rw [← foresees_next, ih, List.foldl_cons]

/-- What has been read with some more text. -/
def read (s : Progress) (text : String) : Progress := (Text.utf8 text).foldl next s

theorem read_append (s : Progress) (t u : String) : s.read (t ++ u) = (s.read t).read u := by
  have hbytes : Text.utf8 (t ++ u) = Text.utf8 t ++ Text.utf8 u := by simp [Text.utf8]
  rw [read, hbytes, List.foldl_append]
  rfl

end Progress

theorem toList_loop (bytes : ByteArray) (i : Nat) (before : List UInt8) :
    ByteArray.toList.loop bytes i before = before.reverse ++ bytes.data.toList.drop i := by
  fun_induction ByteArray.toList.loop bytes i before with
  | case1 i before h ih =>
    have hlt : i < bytes.data.toList.length := by simpa using h
    rw [ih, List.drop_eq_getElem_cons hlt]
    simp [ByteArray.get!, h]
  | case2 i before h =>
    rw [List.drop_eq_nil_of_le (by simpa using h)]
    simp

/-- **A text contains a comment** if reading it from the beginning, as code, comes
to one. -/
theorem contains_eq_read (text : String) :
    contains text = (Progress.code.read text == .comment) := by
  have hbytes : text.toUTF8.toList = Text.utf8 text := by
    rw [ByteArray.toList, toList_loop]
    rfl
  rw [contains, hbytes]
  exact Progress.foresees_eq .code _

/-! ## Settling -/

/-- The byte begins and ends nothing. -/
def isPlain (b : UInt8) : Bool :=
  b != slash && b != star && b != doubleQuote && b != singleQuote && b != backslash && b != lineFeed

namespace Progress

/-- What has been read after a plain byte. -/
def settle : Progress → Progress
  | .code | .slashed | .quotes => .code
  | .quote => .literal true
  | .literal double | .escaped double => .literal double
  | .textBlock | .textEscaped | .textQuote | .textQuotes => .textBlock
  | .comment => .comment

@[simp] theorem settle_settle (s : Progress) : s.settle.settle = s.settle := by
  cases s <;> rfl

theorem settle_beq_comment (s : Progress) : (s.settle == .comment) = (s == .comment) := by
  cases s <;> rfl

theorem next_of_isPlain {b : UInt8} (h : isPlain b = true) (s : Progress) :
    s.next b = s.settle := by
  simp only [isPlain, Bool.and_eq_true, bne_iff_ne] at h
  obtain ⟨⟨⟨⟨⟨hslash, hstar⟩, hdouble⟩, hsingle⟩, hbackslash⟩, hlineFeed⟩ := h
  have hliteral (double : Bool) : inLiteral double b = .literal double := by
    cases double <;> simp [inLiteral, quoteOf, hdouble, hsingle, hbackslash, hlineFeed]
  cases s
  case literal double => exact hliteral double
  all_goals
    simp [next, settle, inCode, inTextBlock, hliteral, hslash, hstar, hdouble, hsingle,
      hbackslash]

/-- After the end of a line the reading is settled too. -/
theorem settle_next_lineFeed (s : Progress) :
    (s.next lineFeed).settle = s.next lineFeed := by
  cases s
  case literal double | escaped double => cases double <;> rfl
  all_goals rfl

end Progress

/-- The text begins with a plain byte. -/
def beginsPlain (text : String) : Bool := (Text.utf8 text).head?.any isPlain

/-- The text ends with a plain byte. -/
def endsPlain (text : String) : Bool := (Text.utf8 text).getLast?.any isPlain

/-- Whatever was read before, after the text the reading is settled. -/
def Settles (text : String) : Prop := ∀ s : Progress, (s.read text).settle = s.read text

section

variable {t t' u u' w : String} {ts us : List String} {s : Progress}

theorem Progress.read_settle (h : beginsPlain w = true) (s : Progress) :
    s.settle.read w = s.read w := by
  unfold beginsPlain at h
  unfold read
  cases hbytes : Text.utf8 w with
  | nil => simp [hbytes] at h
  | cons b rest =>
    have hb : isPlain b = true := by simpa [hbytes] using h
    rw [List.foldl_cons, List.foldl_cons, next_of_isPlain hb, next_of_isPlain hb, settle_settle]

theorem settles_of_endsPlain (h : endsPlain w = true) : Settles w := by
  intro s
  unfold endsPlain at h
  unfold Progress.read
  rcases List.eq_nil_or_concat (Text.utf8 w) with hbytes | ⟨init, b, hbytes⟩
  · simp [hbytes] at h
  · have hb : isPlain b = true := by simpa [hbytes] using h
    rw [hbytes, List.concat_eq_append, List.foldl_append, List.foldl_cons, List.foldl_nil,
      Progress.next_of_isPlain hb, Progress.settle_settle]

theorem Settles.append (h : Settles u) (t : String) : Settles (t ++ u) := by
  intro s
  rw [Progress.read_append]
  exact h _

/-! ## Texts that are read alike -/

/-- From a settled reading on, the two texts come to the same up to a plain
byte. -/
def Alike (t u : String) : Prop :=
  ∀ s : Progress, s.settle = s → (s.read t).settle = (s.read u).settle

/-- From a settled reading on, the two texts come to the same. -/
def ReadSame (t u : String) : Prop := ∀ s : Progress, s.settle = s → s.read t = s.read u

theorem Alike.refl (t : String) : Alike t t := fun _ _ => rfl

theorem ReadSame.refl (t : String) : ReadSame t t := fun _ _ => rfl

theorem ReadSame.alike (h : ReadSame t u) : Alike t u := fun s hs => by rw [h s hs]

theorem Alike.symm (h : Alike t u) : Alike u t := fun s hs => (h s hs).symm

theorem Alike.trans {v : String} (htu : Alike t u) (huv : Alike u v) : Alike t v :=
  fun s hs => (htu s hs).trans (huv s hs)

/-- A plain byte makes up for what two texts differ in. -/
theorem Alike.followed (h : Alike t u) (hw : beginsPlain w = true) :
    ReadSame (t ++ w) (u ++ w) := by
  intro s hs
  rw [Progress.read_append, Progress.read_append, ← Progress.read_settle hw, h s hs,
    Progress.read_settle hw]

/-- Once the reading is settled, what follows may be read alike. -/
theorem ReadSame.append_alike (h : ReadSame t u) (ht : Settles t) (h' : Alike t' u') :
    Alike (t ++ t') (u ++ u') := by
  intro s hs
  rw [Progress.read_append, Progress.read_append, ← h s hs]
  exact h' _ (ht s)

theorem ReadSame.append (h : ReadSame t u) (ht : Settles t) (h' : ReadSame t' u') :
    ReadSame (t ++ t') (u ++ u') := by
  intro s hs
  rw [Progress.read_append, Progress.read_append, ← h s hs]
  exact h' _ (ht s)

theorem Progress.read_opening (s : Progress) : s.read "(" = s.settle := by
  have hbytes : Text.utf8 "(" = [40] := by decide
  rw [read, hbytes]
  exact next_of_isPlain rfl s

theorem Progress.read_closing (s : Progress) : s.read ")" = s.settle := by
  have hbytes : Text.utf8 ")" = [41] := by decide
  rw [read, hbytes]
  exact next_of_isPlain rfl s

/-- **Parentheses make no difference** up to a plain byte. -/
theorem Alike.parens (h : Alike t u) : Alike ("(" ++ t ++ ")") u := by
  intro s hs
  rw [Progress.read_append, Progress.read_append, Progress.read_opening, hs,
    Progress.read_closing, Progress.settle_settle]
  exact h s hs

/-- **Two texts that are read alike contain a comment or not**, both of them. -/
theorem Alike.contains_eq (h : Alike t u) : contains t = contains u := by
  rw [contains_eq_read, contains_eq_read, ← Progress.settle_beq_comment, h .code rfl,
    Progress.settle_beq_comment]

/-- With texts between them that settle the reading, texts may be read one by
one. -/
theorem readSame_intercalate (hw : Settles w) (h : List.Forall₂ ReadSame ts us) :
    ReadSame (w.intercalate ts) (w.intercalate us) := by
  induction h with
  | nil => exact .refl _
  | cons hfirst hrest ih =>
    cases hrest with
    | nil => simpa using hfirst
    | cons hsecond hrest =>
      rw [String.intercalate_cons_cons, String.intercalate_cons_cons]
      refine ReadSame.append (fun s hs => ?_) (hw.append _) ih
      rw [Progress.read_append, Progress.read_append, hfirst s hs]

/-- With plain bytes between them, texts may be read alike one by one. -/
theorem alike_intercalate (hbegins : beginsPlain w = true) (hends : endsPlain w = true)
    (h : List.Forall₂ Alike ts us) : Alike (w.intercalate ts) (w.intercalate us) := by
  induction h with
  | nil => exact .refl _
  | cons hfirst hrest ih =>
    cases hrest with
    | nil => simpa using hfirst
    | cons hsecond hrest =>
      rw [String.intercalate_cons_cons, String.intercalate_cons_cons]
      exact (hfirst.followed hbegins).append_alike ((settles_of_endsPlain hends).append _) ih

/-! ## Lines -/

/-- The blanks at the beginning of a line are read over. -/
theorem Progress.read_newline (s : Progress) (depth : Nat) :
    s.read (Layout.newline depth) = s.next lineFeed := by
  have hblanks : ∀ s : Progress, s.settle = s →
      s.read (String.join (List.replicate depth "    ")) = s := by
    intro s hs
    induction depth with
    | zero => rfl
    | succ depth ih =>
      have hbytes : Text.utf8 "    " = [32, 32, 32, 32] := by decide
      have hfour : s.read "    " = s := by
        simp only [read, hbytes, List.foldl_cons, List.foldl_nil, next_of_isPlain (b := 32) rfl, hs]
      rw [List.replicate_succ, String.join_cons, read_append, hfour, ih]
  have hbreak : s.read "\n" = s.next lineFeed := by
    have hbytes : Text.utf8 "\n" = [lineFeed] := by decide
    rw [read, hbytes]
    rfl
  rw [Layout.newline, read_append, hbreak]
  exact hblanks _ s.settle_next_lineFeed

/-- **Lines that are read the same** make up texts that are, whatever the lines are
indented by. -/
theorem read_lines (depth depth' : Nat) (h : List.Forall₂ ReadSame ts us) (s : Progress) :
    s.read (Layout.lines depth ts) = s.read (Layout.lines depth' us) := by
  induction h generalizing s with
  | nil => rfl
  | @cons t u ts us hfirst _ ih =>
    have hlines (depth : Nat) (t : String) (ts : List String) :
        Layout.lines depth (t :: ts) = Layout.newline depth ++ t ++ Layout.lines depth ts := by
      rw [Layout.lines, List.map_cons, String.join_cons]
      rfl
    rw [hlines, hlines]
    simp only [Progress.read_append, Progress.read_newline]
    rw [hfirst _ s.settle_next_lineFeed, ih]

/-- A run of lines contains a comment if the lines do. -/
theorem contains_intercalate_newline (depth depth' : Nat) (h : List.Forall₂ ReadSame ts us) :
    contains ((Layout.newline depth).intercalate ts) =
      contains ((Layout.newline depth').intercalate us) := by
  have hread (depth : Nat) (t : String) (ts : List String) :
      Progress.code.read ((Layout.newline depth).intercalate (t :: ts)) =
        Progress.code.read (Layout.lines depth (t :: ts)) := by
    rw [Layout.lines_cons, Progress.read_append, Progress.read_newline]
    rfl
  rw [contains_eq_read, contains_eq_read]
  cases h with
  | nil => rfl
  | cons hfirst hrest =>
    rw [hread, hread, read_lines depth depth' (.cons hfirst hrest)]

end

end Codemod.Comment
