import Codemod.Proofs.Blob.Rules
/-!
# What is read of artifacts

The bytes of an artifact are known by how they begin: bytes hold an artifact
exactly if they begin with its bytes (`Blob.decode_eq_ok_iff`). So what was
written is read back, no part of it is taken for an artifact, and nothing but
what could have been written is read.
-/

namespace Codemod.Blob

/-- The texts, lists and numbers in the artifact can be written. -/
def ArtifactFits : Artifact → Prop
  | .rule r => RuleFits r
  | .migration p => MigrationPairFits p

instance : DecidablePred ArtifactFits
  | .rule r => inferInstanceAs (Decidable (RuleFits r))
  | .migration p => inferInstanceAs (Decidable (MigrationPairFits p))

theorem reads_artifact : Reads Decode.artifact Encode.artifact ArtifactFits := by
  intro bytes a rest
  rw [Decode.artifact]
  constructor
  · rw [reads_tag.bind_iff]
    rintro ⟨n, -, mid, rfl, h⟩
    rcases n with _ | _ | n <;>
      simp only [Nat.zero_add, reads_rule.bind_iff, reads_migrationPair.bind_iff,
        pure_eq_ok_iff] at h
    · obtain ⟨r, hr, _, rfl, rfl, rfl⟩ := h
      exact ⟨(List.append_assoc _ _ _).symm, hr⟩
    · obtain ⟨p, hp, _, rfl, rfl, rfl⟩ := h
      exact ⟨(List.append_assoc _ _ _).symm, hp⟩
    · exact absurd h throw_ne_ok
  · rintro ⟨rfl, hfits⟩
    cases a <;> simp only [ArtifactFits] at hfits <;>
      simp (disch := first | decide | assumption) only [Encode.artifact, List.append_assoc,
        reads_tag.bind_append, reads_rule.bind_append, reads_migrationPair.bind_append] <;>
      rfl

theorem length_mark : mark.length = 6 := by decide

theorem length_encode_pos (a : Artifact) : 0 < (encode a).length := by
  rw [encode, List.length_append, List.length_append, length_mark]
  omega

/-- After the mark and the version comes the artifact. -/
theorem decode_eq_ok_iff_exists {bytes : Bytes} {a : Artifact} :
    decode bytes = .ok a ↔ ∃ body rest, bytes = mark ++ (Encode.fixed 2 version ++ body) ∧
      Decode.artifact body = .ok (a, rest) := by
  unfold decode
  simp only [length_mark, Bool.or_eq_true, decide_eq_true_eq, bne_iff_ne]
  constructor
  · intro h
    split_ifs at h with hbegin hversion
    obtain ⟨hlength, hmark⟩ := not_or.1 hbegin
    have hlength := Nat.not_lt.1 hlength
    split at h
    · rename_i a' rest hbody
      obtain rfl := Except.ok.inj h
      refine ⟨bytes.drop 8, rest, ?_, hbody⟩
      have hfound := (number_eq_iff.1 (not_not.1 hversion)).1
      have hwidth : ((bytes.take 8).drop 6).length = 2 := by
        rw [List.length_drop, List.length_take_of_le hlength]
      rw [hwidth] at hfound
      calc bytes = (bytes.take 8).take 6 ++ (bytes.take 8).drop 6 ++ bytes.drop 8 := by
            rw [List.take_append_drop, List.take_append_drop]
        _ = mark ++ (Encode.fixed 2 version ++ bytes.drop 8) := by
            rw [List.take_take, hfound, List.append_assoc, ← not_not.1 hmark]
            rfl
    · exact absurd h nofun
  · rintro ⟨body, rest, rfl, hbody⟩
    have htake : (mark ++ (Encode.fixed 2 version ++ body)).take 8 =
        mark ++ Encode.fixed 2 version := by
      rw [← List.append_assoc]
      exact List.take_left' rfl
    have hdrop : (mark ++ (Encode.fixed 2 version ++ body)).drop 8 = body := by
      rw [← List.append_assoc]
      exact List.drop_left' rfl
    rw [if_neg, if_neg, hdrop, hbody]
    · rw [htake, List.drop_left' length_mark, not_not]
      rfl
    · rw [List.take_left' length_mark, List.length_append, List.length_append, length_mark,
        length_fixed]
      simp
      omega

/-- **Bytes hold an artifact exactly if they begin with its bytes.** -/
theorem decode_eq_ok_iff {bytes : Bytes} {a : Artifact} :
    decode bytes = .ok a ↔ encode a <+: bytes ∧ ArtifactFits a := by
  rw [decode_eq_ok_iff_exists]
  constructor
  · rintro ⟨body, rest, rfl, hbody⟩
    obtain ⟨rfl, hfits⟩ := (reads_artifact _ _ _).1 hbody
    exact ⟨⟨rest, by simp [encode]⟩, hfits⟩
  · rintro ⟨⟨rest, rfl⟩, hfits⟩
    exact ⟨Encode.artifact a ++ rest, rest, by simp [encode], (reads_artifact _ _ _).2 ⟨rfl, hfits⟩⟩

/-- No two artifacts begin alike. -/
theorem eq_of_encode_isPrefix {a b : Artifact} (hb : ArtifactFits b) (h : encode a <+: encode b)
    (ha : ArtifactFits a) : a = b := by
  have hread := decode_eq_ok_iff.2 ⟨h, ha⟩
  rw [decode_eq_ok_iff.2 ⟨List.prefix_rfl, hb⟩] at hread
  exact (Except.ok.inj hread).symm

/-- **The bytes of an artifact say where they end.** What was written is read
back, no beginning of it short of the whole is taken for an artifact, and what
is taken for one begins with its bytes. -/
theorem decode_selfDelimiting :
    (∀ a, ArtifactFits a → decode (encode a) = .ok a ∧
      ∀ front, front <+: encode a → front ≠ encode a → ∃ e, decode front = .error e) ∧
    ∀ bytes a, decode bytes = .ok a → encode a <+: bytes := by
  refine ⟨fun a ha => ⟨decode_eq_ok_iff.2 ⟨List.prefix_rfl, ha⟩, fun front hfront hne => ?_⟩,
    fun bytes a h => (decode_eq_ok_iff.1 h).1⟩
  cases hread : decode front with
  | error e => exact ⟨e, rfl⟩
  | ok b =>
    obtain ⟨hb, hfits⟩ := decode_eq_ok_iff.1 hread
    obtain rfl := eq_of_encode_isPrefix ha (hb.trans hfront) hfits
    exact absurd (hfront.eq_of_length_le hb.length_le) hne

/-- A rule that flags sums with zero. -/
def zeroSum : Rule where
  name := "com.example.ZeroSum"
  before := [⟨"sum", [], [⟨"a", .plain "int", none⟩], .plain "int",
    .expr (.binary .add (.placeholder "a") (.literal (.int 0)))⟩]
  after := []
  descriptor := .standard

theorem decode_encode_zeroSum : decode (encode (.rule zeroSum)) = .ok (.rule zeroSum) ∧
    ∃ e, decode (encode (.rule zeroSum)).dropLast = .error e := by
  obtain ⟨hwhole, hfront⟩ := decode_selfDelimiting.1 (.rule zeroSum) (by decide +kernel)
  have hshort : (encode (.rule zeroSum)).dropLast ≠ encode (.rule zeroSum) := fun h => by
    have hlength := congrArg List.length h
    have := length_encode_pos (.rule zeroSum)
    rw [List.length_dropLast] at hlength
    omega
  exact ⟨hwhole, hfront _ (List.dropLast_prefix _) hshort⟩

end Codemod.Blob
