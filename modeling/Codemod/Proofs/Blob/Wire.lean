import Codemod.Blob.Wire
import Mathlib.Data.List.Basic
import Mathlib.Tactic.MkIffOfInductiveProp
/-!
# What decoders read

A decoder reads a form when it succeeds exactly on the bytes that the encoder
writes, whatever follows them, and leaves what follows (`Blob.Reads`). So it
reads back what was written, and it reads nothing else: the one statement holds
both directions, and those of the parts of a form give those of the whole.

Numbers have a fixed width, so only values of limited size can be written: the
predicate that goes with a form says which. They are those that a machine with
words of 64 bits can hold.
-/

namespace Codemod

namespace Text

theorem ofUtf8?_eq_some_iff {bytes : Bytes} {s : String} :
    ofUtf8? bytes = some s ↔ bytes = utf8 s := by
  unfold ofUtf8? utf8 String.fromUTF8?
  constructor
  · intro h
    split at h
    · obtain rfl := Option.some.inj h
      rfl
    · exact absurd h nofun
  · rintro rfl
    exact dif_pos s.isValidUTF8

end Text

namespace Blob

variable {α β : Type}

/-- **The decoder reads the form that the encoder writes**, of the values that
fit it. -/
def Reads (dec : Decoder α) (enc : α → Bytes) (fits : α → Prop) : Prop :=
  ∀ bytes a rest, dec bytes = .ok (a, rest) ↔ bytes = enc a ++ rest ∧ fits a

/-! ## Decoders one after another -/

theorem bind_eq_ok_iff {m : Decoder α} {f : α → Decoder β} {bytes rest : Bytes} {b : β} :
    (m >>= f) bytes = .ok (b, rest) ↔
      ∃ a mid, m bytes = .ok (a, mid) ∧ f a mid = .ok (b, rest) := by
  show (m bytes >>= fun p => f p.1 p.2) = _ ↔ _
  cases m bytes with
  | error e => simp [bind, Except.bind]
  | ok p => obtain ⟨a, mid⟩ := p; simp [bind, Except.bind]

theorem pure_eq_ok_iff {a b : α} {bytes rest : Bytes} :
    (pure a : Decoder α) bytes = .ok (b, rest) ↔ a = b ∧ bytes = rest := by
  show (Except.ok (a, bytes) : Except DecodeError _) = _ ↔ _
  rw [Except.ok.injEq, Prod.mk.injEq]

theorem throw_ne_ok {e : DecodeError} {bytes rest : Bytes} {b : α} :
    (throw e : Decoder α) bytes ≠ .ok (b, rest) := nofun

namespace Reads

variable {dec : Decoder α} {enc : α → Bytes} {fits : α → Prop}

/-- What comes after a form goes on where that ends. -/
theorem bind_iff (h : Reads dec enc fits) {f : α → Decoder β} {bytes rest : Bytes} {b : β} :
    (dec >>= f) bytes = .ok (b, rest) ↔
      ∃ a, fits a ∧ ∃ mid, bytes = enc a ++ mid ∧ f a mid = .ok (b, rest) := by
  rw [bind_eq_ok_iff]
  constructor
  · rintro ⟨a, mid, hdec, hf⟩
    obtain ⟨hbytes, hfits⟩ := (h bytes a mid).1 hdec
    exact ⟨a, hfits, mid, hbytes, hf⟩
  · rintro ⟨a, hfits, mid, hbytes, hf⟩
    exact ⟨a, mid, (h bytes a mid).2 ⟨hbytes, hfits⟩, hf⟩

/-- What was written is read, and reading goes on with what follows. -/
theorem bind_append (h : Reads dec enc fits) {f : α → Decoder β} {a : α} (ha : fits a)
    (bytes : Bytes) : (dec >>= f) (enc a ++ bytes) = f a bytes := by
  show (dec _ >>= fun p => f p.1 p.2) = _
  rw [(h _ a bytes).2 ⟨rfl, ha⟩]
  rfl

theorem congr (h : Reads dec enc fits) {enc' : α → Bytes} {fits' : α → Prop}
    (henc : ∀ a, enc' a = enc a) (hfits : ∀ a, fits' a ↔ fits a) : Reads dec enc' fits' :=
  fun bytes a rest => by rw [henc, hfits]; exact h bytes a rest

end Reads

/-! ## Numbers -/

theorem take_eq_ok_iff {e : DecodeError} {n : Nat} {bytes taken rest : Bytes} :
    Decode.take e n bytes = .ok (taken, rest) ↔ bytes = taken ++ rest ∧ taken.length = n := by
  unfold Decode.take
  constructor
  · intro h
    split at h
    · rename_i hlen
      obtain ⟨rfl, rfl⟩ := Prod.mk.inj (Except.ok.inj h)
      exact ⟨(List.take_append_drop n bytes).symm, List.length_take_of_le hlen⟩
    · exact absurd h nofun
  · rintro ⟨rfl, rfl⟩
    rw [if_pos (by simp)]
    simp

theorem length_fixed (width n : Nat) : (Encode.fixed width n).length = width := by
  induction width generalizing n with
  | zero => rfl
  | succ width ih => rw [Encode.fixed, List.length_cons, ih]

theorem twoPow_byte (width : Nat) : twoPow (8 * (width + 1)) = twoPow (8 * width) * 256 :=
  Nat.pow_add 2 (8 * width) 8

/-- A number is known by its bytes if there are enough of them. -/
theorem number_eq_iff {bytes : Bytes} {n : Nat} :
    Decode.number bytes = n ↔
      bytes = Encode.fixed bytes.length n ∧ n < twoPow (8 * bytes.length) := by
  induction bytes generalizing n with
  | nil => simp [Decode.number, Encode.fixed, twoPow, eq_comm]
  | cons b rest ih =>
    rw [Decode.number, List.length_cons, Encode.fixed, List.cons.injEq, and_assoc, twoPow_byte]
    have hb : b.toNat < 256 := b.toNat_lt
    have hrest := ih (n := n / 256)
    have hbyte : b = UInt8.ofNat (n % 256) ↔ b.toNat = n % 256 := by
      rw [← UInt8.toNat_inj, UInt8.toNat_ofNat']
      simp
    constructor
    · intro h
      refine ⟨hbyte.2 (by omega), ?_⟩
      obtain ⟨heq, hlt⟩ := hrest.1 (by omega)
      exact ⟨heq, by omega⟩
    · rintro ⟨hfirst, heq, hlt⟩
      have := hrest.2 ⟨heq, by omega⟩
      have := hbyte.1 hfirst
      omega

theorem reads_fixed (width : Nat) :
    Reads (Decode.fixed width) (Encode.fixed width) (· < twoPow (8 * width)) := by
  intro bytes n rest
  rw [Decode.fixed, bind_eq_ok_iff]
  constructor
  · rintro ⟨taken, mid, htake, hnumber⟩
    obtain ⟨rfl, rfl⟩ := take_eq_ok_iff.1 htake
    obtain ⟨hn, rfl⟩ := pure_eq_ok_iff.1 hnumber
    obtain ⟨heq, hlt⟩ := number_eq_iff.1 hn
    exact ⟨congrArg (· ++ mid) heq, hlt⟩
  · rintro ⟨rfl, hlt⟩
    refine ⟨_, rest, take_eq_ok_iff.2 ⟨rfl, length_fixed width n⟩, pure_eq_ok_iff.2 ⟨?_, rfl⟩⟩
    exact number_eq_iff.2 (by rw [length_fixed]; exact ⟨rfl, hlt⟩)

theorem reads_tag : Reads Decode.tag Encode.tag (· < twoPow 32) := reads_fixed 4

/-- The number of bytes or items that a machine can hold. -/
theorem reads_length : Reads Decode.length Encode.length (· < twoPow 64) :=
  (reads_fixed 8).congr (fun _ => rfl) fun _ => Iff.rfl

/-- Whole numbers of 64 bits, the first of which is the sign. -/
def IntFits (n : Int) : Prop := -(twoPow 63 : Int) ≤ n ∧ n < twoPow 63

instance : DecidablePred IntFits := fun n =>
  inferInstanceAs (Decidable (-(twoPow 63 : Int) ≤ n ∧ n < twoPow 63))

theorem reads_int : Reads Decode.int Encode.int IntFits := by
  intro bytes n rest
  have h63 : twoPow 63 = 9223372036854775808 := rfl
  have h64 : twoPow 64 = 18446744073709551616 := rfl
  rw [Decode.int, (reads_fixed 8).bind_iff, Encode.int, IntFits, h63, h64]
  constructor
  · rintro ⟨m, hm, mid, rfl, h⟩
    obtain ⟨rfl, rfl⟩ := pure_eq_ok_iff.1 h
    split
    · refine ⟨?_, by omega, by omega⟩
      rw [show ((m : Int) % (18446744073709551616 : Nat)).toNat = m by omega]
    · refine ⟨?_, by omega, by omega⟩
      rw [show (((m : Int) - (18446744073709551616 : Nat)) % (18446744073709551616 : Nat)).toNat = m
        by omega]
  · rintro ⟨rfl, hlow, hhigh⟩
    refine ⟨_, by omega, rest, rfl, pure_eq_ok_iff.2 ⟨?_, rfl⟩⟩
    split <;> omega

theorem reads_double : Reads Decode.double Encode.double fun _ => True := by
  intro bytes x rest
  rw [Decode.double, (reads_fixed 8).bind_iff, Encode.double]
  constructor
  · rintro ⟨n, hn, mid, rfl, h⟩
    obtain ⟨rfl, rfl⟩ := pure_eq_ok_iff.1 h
    refine ⟨?_, trivial⟩
    dsimp only
    rw [UInt64.toNat_ofNat_of_lt' hn]
  · rintro ⟨rfl, -⟩
    exact ⟨_, x.bits.toNat_lt, rest, rfl, pure_eq_ok_iff.2 ⟨by rw [UInt64.ofNat_toNat], rfl⟩⟩

/-! ## Single bytes -/

theorem reads_byte : Reads Decode.byte (fun b => [b]) fun _ => True := by
  intro bytes b rest
  rw [Decode.byte, (reads_fixed 1).bind_iff]
  constructor
  · rintro ⟨n, hn, mid, rfl, h⟩
    obtain ⟨rfl, rfl⟩ := pure_eq_ok_iff.1 h
    have hn : n < 256 := hn
    simp [Encode.fixed, Nat.mod_eq_of_lt hn]
  · rintro ⟨rfl, -⟩
    have hb : b.toNat < 256 := b.toNat_lt
    refine ⟨b.toNat, hb, rest, ?_, pure_eq_ok_iff.2 ⟨by simp, rfl⟩⟩
    simp [Encode.fixed, Nat.mod_eq_of_lt hb]

theorem reads_bool : Reads Decode.bool Encode.bool fun _ => True := by
  intro bytes b rest
  rw [Decode.bool, reads_byte.bind_iff]
  constructor
  · rintro ⟨byte, -, mid, rfl, h⟩
    split at h
    · obtain ⟨rfl, rfl⟩ := pure_eq_ok_iff.1 h
      exact ⟨rfl, trivial⟩
    · obtain ⟨rfl, rfl⟩ := pure_eq_ok_iff.1 h
      exact ⟨rfl, trivial⟩
    · exact absurd h throw_ne_ok
  · rintro ⟨rfl, -⟩
    cases b with
    | false => exact ⟨0, trivial, rest, rfl, pure_eq_ok_iff.2 ⟨rfl, rfl⟩⟩
    | true => exact ⟨1, trivial, rest, rfl, pure_eq_ok_iff.2 ⟨rfl, rfl⟩⟩

/-- What may be absent is read if what is there is. -/
theorem Reads.option {dec : Decoder α} {enc : α → Bytes} {fits : α → Prop}
    (h : Reads dec enc fits) :
    Reads (Decode.option dec) (Encode.option enc) fun x => ∀ a ∈ x, fits a := by
  intro bytes x rest
  rw [Decode.option, reads_byte.bind_iff]
  constructor
  · rintro ⟨byte, -, mid, rfl, hrest⟩
    split at hrest
    · obtain ⟨rfl, rfl⟩ := pure_eq_ok_iff.1 hrest
      exact ⟨rfl, nofun⟩
    · obtain ⟨a, ha, mid', rfl, hsome⟩ := h.bind_iff.1 hrest
      obtain ⟨rfl, rfl⟩ := pure_eq_ok_iff.1 hsome
      exact ⟨rfl, fun _ ha' => Option.some.inj ha' ▸ ha⟩
    · exact absurd hrest throw_ne_ok
  · rintro ⟨rfl, hfits⟩
    cases x with
    | none => exact ⟨0, trivial, rest, rfl, pure_eq_ok_iff.2 ⟨rfl, rfl⟩⟩
    | some a =>
      exact ⟨1, trivial, enc a ++ rest, rfl,
        h.bind_iff.2 ⟨a, hfits a rfl, rest, rfl, pure_eq_ok_iff.2 ⟨rfl, rfl⟩⟩⟩

/-! ## Texts and lists -/

theorem utf8Width_eq (first : UInt8) :
    Text.utf8Width first =
      if first.toNat < 128 then 1
      else if first.toNat < 194 then 0
      else if first.toNat < 224 then 2
      else if first.toNat < 240 then 3
      else if first.toNat < 245 then 4
      else 0 := by
  simp only [Text.utf8Width, UInt8.lt_iff_toNat_lt]
  rfl

/-- The first byte of a character says how many bytes it has. -/
theorem exists_utf8_singleton (c : Char) : ∃ first more,
    Text.utf8 (String.singleton c) = first :: more ∧ Text.utf8Width first = more.length + 1 := by
  have hc : c.val.toNat < 1114112 := by
    rcases c.valid with h | h
    · exact Nat.lt_trans h (by decide)
    · exact h.2
  have hlow : c.val.toNat = c.toNat := rfl
  rw [Text.utf8_singleton, String.utf8EncodeChar]
  split
  · refine ⟨_, _, rfl, ?_⟩
    rw [utf8Width_eq, UInt8.toNat_ofNat', if_pos (by omega)]
    rfl
  split
  · refine ⟨_, _, rfl, ?_⟩
    rw [utf8Width_eq, UInt8.toNat_ofNat', if_neg (by omega), if_neg (by omega), if_pos (by omega)]
    rfl
  split
  · refine ⟨_, _, rfl, ?_⟩
    rw [utf8Width_eq, UInt8.toNat_ofNat', if_neg (by omega), if_neg (by omega), if_neg (by omega),
      if_pos (by omega)]
    rfl
  · refine ⟨_, _, rfl, ?_⟩
    rw [utf8Width_eq, UInt8.toNat_ofNat', if_neg (by omega), if_neg (by omega), if_neg (by omega),
      if_neg (by omega), if_pos (by omega)]
    rfl

theorem reads_char : Reads Decode.char Encode.char fun _ => True := by
  intro bytes c rest
  rw [Decode.char, reads_byte.bind_iff]
  constructor
  · rintro ⟨first, -, mid, rfl, h⟩
    obtain ⟨more, mid', hmore, hchar⟩ := bind_eq_ok_iff.1 h
    obtain ⟨rfl, -⟩ := take_eq_ok_iff.1 hmore
    rcases hchars : (Text.ofUtf8? (first :: more)).map String.toList with
      _ | _ | ⟨c', _ | ⟨_, _⟩⟩ <;> rw [hchars] at hchar
    case some.cons.nil =>
      obtain ⟨rfl, rfl⟩ := pure_eq_ok_iff.1 hchar
      obtain ⟨s, hs, hlist⟩ := Option.map_eq_some_iff.1 hchars
      obtain rfl : s = String.singleton c' := String.toList_inj.1 (by simpa using hlist)
      exact ⟨congrArg (· ++ mid') (Text.ofUtf8?_eq_some_iff.1 hs), trivial⟩
    all_goals exact absurd hchar throw_ne_ok
  · rintro ⟨rfl, -⟩
    obtain ⟨first, more, hutf8, hwidth⟩ := exists_utf8_singleton c
    rw [Encode.char, hutf8]
    refine ⟨first, trivial, more ++ rest, rfl, bind_eq_ok_iff.2 ⟨more, rest, ?_, ?_⟩⟩
    · exact take_eq_ok_iff.2 ⟨rfl, by omega⟩
    · have hchars : (Text.ofUtf8? (first :: more)).map String.toList = some [c] := by
        rw [Text.ofUtf8?_eq_some_iff.2 hutf8.symm]
        simp
      rw [hchars]
      exact pure_eq_ok_iff.2 ⟨rfl, rfl⟩

/-- The bytes of the text can be counted. -/
def TextFits (s : String) : Prop := (Text.utf8 s).length < twoPow 64

instance : DecidablePred TextFits := fun s =>
  inferInstanceAs (Decidable ((Text.utf8 s).length < twoPow 64))

theorem reads_text : Reads Decode.text Encode.text TextFits := by
  intro bytes s rest
  rw [Decode.text, reads_length.bind_iff]
  constructor
  · rintro ⟨n, hn, mid, rfl, h⟩
    obtain ⟨taken, mid', htake, htext⟩ := bind_eq_ok_iff.1 h
    obtain ⟨rfl, rfl⟩ := take_eq_ok_iff.1 htake
    cases hs : Text.ofUtf8? taken with
    | none =>
      rw [hs] at htext
      exact absurd htext throw_ne_ok
    | some s' =>
      rw [hs] at htext
      obtain ⟨rfl, rfl⟩ := pure_eq_ok_iff.1 htext
      obtain rfl := Text.ofUtf8?_eq_some_iff.1 hs
      exact ⟨(List.append_assoc _ _ _).symm, hn⟩
  · rintro ⟨rfl, hfits⟩
    refine ⟨_, hfits, Text.utf8 s ++ rest, List.append_assoc _ _ _, bind_eq_ok_iff.2
      ⟨_, rest, take_eq_ok_iff.2 ⟨rfl, rfl⟩, ?_⟩⟩
    rw [Text.ofUtf8?_eq_some_iff.2 rfl]
    exact pure_eq_ok_iff.2 ⟨rfl, rfl⟩

/-- The items can be counted, and each fits. -/
@[mk_iff]
structure ListFits (fits : α → Prop) (items : List α) : Prop where
  counted : items.length < twoPow 64
  each : ∀ a ∈ items, fits a

instance (fits : α → Prop) [DecidablePred fits] : DecidablePred (ListFits fits) := fun items =>
  decidable_of_iff' _ (listFits_iff fits items)

namespace Reads

variable {dec : Decoder α} {enc : α → Bytes} {fits : α → Prop}

theorem times (h : Reads dec enc fits) (n : Nat) :
    Reads (Decode.times dec n) (List.flatMap enc) fun items =>
      items.length = n ∧ ∀ a ∈ items, fits a := by
  induction n with
  | zero =>
    intro bytes items rest
    rw [Decode.times, pure_eq_ok_iff]
    constructor
    · rintro ⟨rfl, rfl⟩
      exact ⟨rfl, rfl, nofun⟩
    · rintro ⟨rfl, hlength, -⟩
      obtain rfl := List.length_eq_zero_iff.1 hlength
      exact ⟨rfl, rfl⟩
  | succ n ih =>
    intro bytes items rest
    rw [Decode.times, h.bind_iff]
    constructor
    · rintro ⟨a, ha, mid, rfl, hlater⟩
      obtain ⟨later, ⟨rfl, hfits⟩, mid', rfl, hitems⟩ := ih.bind_iff.1 hlater
      obtain ⟨rfl, rfl⟩ := pure_eq_ok_iff.1 hitems
      exact ⟨by simp, rfl, List.forall_mem_cons.2 ⟨ha, hfits⟩⟩
    · rintro ⟨rfl, hlength, hfits⟩
      obtain ⟨a, later, rfl⟩ := List.exists_cons_of_length_eq_add_one hlength
      obtain ⟨ha, hlater⟩ := List.forall_mem_cons.1 hfits
      refine ⟨a, ha, later.flatMap enc ++ rest, by simp, ih.bind_iff.2
        ⟨later, ⟨by simpa using hlength, hlater⟩, rest, rfl, pure_eq_ok_iff.2 ⟨rfl, rfl⟩⟩⟩

/-- **A list is read if its items are.** -/
theorem list (h : Reads dec enc fits) :
    Reads (Decode.list dec) (Encode.list enc) (ListFits fits) := by
  intro bytes items rest
  rw [Decode.list, reads_length.bind_iff]
  constructor
  · rintro ⟨n, hn, mid, rfl, htimes⟩
    obtain ⟨rfl, rfl, hfits⟩ := (h.times n mid items rest).1 htimes
    exact ⟨(List.append_assoc _ _ _).symm, hn, hfits⟩
  · rintro ⟨rfl, hcounted, hfits⟩
    exact ⟨_, hcounted, _, List.append_assoc _ _ _, (h.times _ _ _ _).2 ⟨rfl, rfl, hfits⟩⟩

end Reads

/-- The values of a kind are told apart by their numbers, if none is listed
twice. -/
theorem reads_oneOf [BEq α] [LawfulBEq α] {all : List α} (hnodup : all.Nodup)
    (hcounted : all.length ≤ twoPow 32) :
    Reads (Decode.oneOf all) (Encode.oneOf all) (· ∈ all) := by
  intro bytes a rest
  rw [Decode.oneOf, reads_tag.bind_iff]
  constructor
  · rintro ⟨n, hn, mid, rfl, h⟩
    cases ha : all[n]? with
    | none =>
      rw [ha] at h
      exact absurd h throw_ne_ok
    | some a' =>
      rw [ha] at h
      obtain ⟨rfl, rfl⟩ := pure_eq_ok_iff.1 h
      obtain ⟨hlt, rfl⟩ := List.getElem?_eq_some_iff.1 ha
      rw [Encode.oneOf, hnodup.idxOf_getElem n hlt]
      exact ⟨rfl, List.getElem_mem hlt⟩
  · rintro ⟨rfl, hmem⟩
    have hlt : all.idxOf a < all.length := List.idxOf_lt_length_of_mem hmem
    refine ⟨_, Nat.lt_of_lt_of_le hlt hcounted, rest, rfl, ?_⟩
    rw [List.getElem?_eq_getElem hlt, List.getElem_idxOf hlt]
    exact pure_eq_ok_iff.2 ⟨rfl, rfl⟩

end Blob

end Codemod
