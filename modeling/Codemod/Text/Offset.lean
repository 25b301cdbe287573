/-!
# Byte offsets into text

Spans of source text are measured in bytes of its UTF-8 form. An offset
*splits* a text when it lies between two of its characters or at an end.
`slice?` cuts out the piece between two offsets that both split it, and is
characterised by `slice?_eq_some_iff`: it returns `m` exactly for a text that
reads `l ++ m ++ r` with `l` and `m` of the lengths asked for.
-/

namespace Codemod.Text

/-- The number of bytes of the UTF-8 form. -/
def byteCount (s : String) : Nat := s.utf8ByteSize

@[simp] theorem byteCount_empty : byteCount "" = 0 := rfl

@[simp] theorem byteCount_append (s t : String) :
    byteCount (s ++ t) = byteCount s + byteCount t := String.utf8ByteSize_append

/-- Only the empty text has no bytes. -/
theorem byteCount_eq_zero_iff {s : String} : byteCount s = 0 ↔ s = "" :=
  String.utf8ByteSize_eq_zero_iff

/-- The offset lies between two characters of the text or at one of its
ends. -/
def Splits (s : String) (n : Nat) : Prop := String.Pos.Raw.IsValid s ⟨n⟩

instance (s : String) (n : Nat) : Decidable (Splits s n) :=
  inferInstanceAs (Decidable (String.Pos.Raw.IsValid s ⟨n⟩))

/-- An offset splits a text exactly when some first part of it has that many
bytes. -/
theorem splits_iff {s : String} {n : Nat} :
    Splits s n ↔ ∃ l r, s = l ++ r ∧ n = byteCount l := by
  simp only [Splits, String.Pos.Raw.isValid_iff_exists_append, String.Pos.Raw.ext_iff,
    String.byteIdx_rawEndPos, byteCount]

/-- Of two first parts of one text, the one with no more bytes starts the
other. -/
theorem exists_eq_append_of_byteCount_le {l t u r : String} (h : l ++ t = u ++ r)
    (hle : byteCount l ≤ byteCount u) : ∃ k, u = l ++ k := by
  have hlist := congrArg String.toList h
  rw [String.toList_append, String.toList_append, List.append_eq_append_iff] at hlist
  rcases hlist with ⟨k, hk, -⟩ | ⟨k, hk, -⟩
  · exact ⟨String.ofList k, String.toList_inj.1 (by simpa using hk)⟩
  · have hl : l = u ++ String.ofList k := String.toList_inj.1 (by simpa using hk)
    have hsum := congrArg byteCount hl
    rw [byteCount_append] at hsum
    have hnil : String.ofList k = "" := byteCount_eq_zero_iff.1 (by omega)
    exact ⟨"", by rw [hl, hnil]; simp⟩

/-- The piece of the text from one offset to another; nothing when the
offsets are reversed or one of them does not split the text. -/
def slice? (s : String) (start stop : Nat) : Option String :=
  if h : start ≤ stop ∧ Splits s start ∧ Splits s stop then
    some (s.extract (s.pos ⟨start⟩ h.2.1) (s.pos ⟨stop⟩ h.2.2))
  else none

/-- Reading from the end of a left part to the end of a middle part gives the
middle part. -/
theorem extract_eq {s l m r : String} {b e : s.Pos} (hs : s = l ++ m ++ r)
    (hb : b.offset.byteIdx = byteCount l) (he : e.offset.byteIdx = byteCount l + byteCount m) :
    s.extract b e = m := by
  apply String.toByteArray_inj.1
  rw [String.toByteArray_extract, hb, he]
  subst hs
  have hleft (n : Nat) : l.toByteArray.extract l.utf8ByteSize n = .empty :=
    ByteArray.extract_eq_empty_iff.2
      (Nat.le_trans (Nat.min_le_right _ _) (Nat.le_of_eq l.size_toByteArray))
  have hfull : m.toByteArray.extract 0 m.utf8ByteSize = m.toByteArray := by
    rw [← String.size_toByteArray, ByteArray.extract_zero_size]
  simp [ByteArray.extract_append, byteCount, hleft, hfull]

/-- **What a slice is.** The piece that ends `stop` bytes into the text when a
left part of `start` bytes is set before it. -/
theorem slice?_eq_some_iff {s m : String} {start stop : Nat} :
    slice? s start stop = some m ↔
      ∃ l r, s = l ++ m ++ r ∧ start = byteCount l ∧ stop = byteCount l + byteCount m := by
  unfold slice?
  constructor
  · intro h
    split at h
    case isFalse => exact absurd h (by simp)
    case isTrue hs =>
      obtain ⟨hle, hstart, hstop⟩ := hs
      obtain ⟨l, t, hl, rfl⟩ := splits_iff.1 hstart
      obtain ⟨u, r, hu, rfl⟩ := splits_iff.1 hstop
      obtain ⟨k, rfl⟩ := exists_eq_append_of_byteCount_le (hl.symm.trans hu) hle
      have hk := extract_eq (b := s.pos ⟨byteCount l⟩ hstart)
        (e := s.pos ⟨byteCount (l ++ k)⟩ hstop) hu rfl (byteCount_append l k)
      obtain rfl : k = m := hk.symm.trans (Option.some.inj h)
      exact ⟨l, r, hu, rfl, byteCount_append l k⟩
  · rintro ⟨l, r, hs, rfl, rfl⟩
    have hstart : Splits s (byteCount l) :=
      splits_iff.2 ⟨l, m ++ r, by rw [hs, String.append_assoc], rfl⟩
    have hstop : Splits s (byteCount l + byteCount m) :=
      splits_iff.2 ⟨l ++ m, r, hs, (byteCount_append l m).symm⟩
    rw [dif_pos ⟨Nat.le_add_right _ _, hstart, hstop⟩]
    exact congrArg some (extract_eq hs rfl rfl)

end Codemod.Text
