import Mathlib.Data.List.Forall2
/-!
# Computations that may fail

A computation of several steps gives a result when each step does, and fails
when some step fails after those before it did not. The same goes for a step
that is taken at every element of a list, and for lists that are put together
from several computations (`concat`).

Two computations that go the same way have related outcomes (`Related`): both
fail, with one error, or both give results, and these are related.
-/

namespace Codemod.Outcome

variable {ε α β : Type}

theorem bind_eq_ok_iff {x : Except ε α} {f : α → Except ε β} {b : β} :
    (x >>= f) = .ok b ↔ ∃ a, x = .ok a ∧ f a = .ok b := by
  cases x with
  | error e => simp [bind, Except.bind]
  | ok a => simp [bind, Except.bind]

theorem bind_eq_error_iff {x : Except ε α} {f : α → Except ε β} {e : ε} :
    (x >>= f) = .error e ↔ x = .error e ∨ ∃ a, x = .ok a ∧ f a = .error e := by
  cases x with
  | error e' => simp [bind, Except.bind]
  | ok a => simp [bind, Except.bind]

theorem pure_eq_ok_iff {a b : α} : (pure a : Except ε α) = .ok b ↔ a = b :=
  Except.ok.injEq a b ▸ Iff.rfl

theorem pure_ne_error {a : α} {e : ε} : (pure a : Except ε α) ≠ .error e := nofun

theorem mapError_eq_ok_iff {ε' : Type} {f : ε → ε'} {x : Except ε α} {a : α} :
    x.mapError f = .ok a ↔ x = .ok a := by
  cases x with
  | ok b =>
    show (.ok b : Except ε' α) = .ok a ↔ _
    simp
  | error e =>
    show (.error (f e) : Except ε' α) = .ok a ↔ _
    simp

/-- The results are those of the elements, in order. -/
theorem forall₂_of_mapM_eq_ok {f : α → Except ε β} {as : List α} {bs : List β}
    (h : as.mapM f = .ok bs) : List.Forall₂ (fun a b => f a = .ok b) as bs := by
  induction as generalizing bs with
  | nil =>
    obtain rfl := pure_eq_ok_iff.1 h
    exact .nil
  | cons a as ih =>
    rw [List.mapM_cons] at h
    obtain ⟨b, hb, h⟩ := bind_eq_ok_iff.1 h
    obtain ⟨rest, hrest, h⟩ := bind_eq_ok_iff.1 h
    obtain rfl := pure_eq_ok_iff.1 h
    exact .cons hb (ih hrest)

/-- Every result comes from an element. -/
theorem exists_of_mapM_eq_ok {f : α → Except ε β} {as : List α} {bs : List β}
    (h : as.mapM f = .ok bs) {b : β} (hb : b ∈ bs) : ∃ a ∈ as, f a = .ok b := by
  replace h := forall₂_of_mapM_eq_ok h
  induction h with
  | nil => exact absurd hb List.not_mem_nil
  | @cons a _ _ _ hfa _ ih =>
    rcases List.mem_cons.1 hb with rfl | hb
    · exact ⟨a, List.mem_cons_self, hfa⟩
    · obtain ⟨a', ha', hfa'⟩ := ih hb
      exact ⟨a', List.mem_cons_of_mem _ ha', hfa'⟩

/-- Every element has a result. -/
theorem exists_result_of_mapM_eq_ok {f : α → Except ε β} {as : List α} {bs : List β}
    (h : as.mapM f = .ok bs) {a : α} (ha : a ∈ as) : ∃ b ∈ bs, f a = .ok b := by
  replace h := forall₂_of_mapM_eq_ok h
  induction h with
  | nil => exact absurd ha List.not_mem_nil
  | @cons _ b _ _ hfa _ ih =>
    rcases List.mem_cons.1 ha with rfl | ha
    · exact ⟨b, List.mem_cons_self, hfa⟩
    · obtain ⟨b', hb', hfa'⟩ := ih ha
      exact ⟨b', List.mem_cons_of_mem _ hb', hfa'⟩

/-- What the results show is what the elements show. -/
theorem map_of_mapM_eq_ok {γ : Type} {f : α → Except ε β} {as : List α} {bs : List β}
    (h : as.mapM f = .ok bs) {g : α → γ} {g' : β → γ} (hshow : ∀ a b, f a = .ok b → g' b = g a) :
    bs.map g' = as.map g := by
  replace h := forall₂_of_mapM_eq_ok h
  induction h with
  | nil => rfl
  | cons hab _ ih => rw [List.map_cons, List.map_cons, hshow _ _ hab, ih]

/-- A failure comes from an element. -/
theorem exists_of_mapM_eq_error {f : α → Except ε β} {as : List α} {e : ε}
    (h : as.mapM f = .error e) : ∃ a ∈ as, f a = .error e := by
  induction as with
  | nil => exact absurd h pure_ne_error
  | cons a as ih =>
    rw [List.mapM_cons] at h
    rcases bind_eq_error_iff.1 h with hfirst | ⟨b, -, h⟩
    · exact ⟨a, List.mem_cons_self, hfirst⟩
    rcases bind_eq_error_iff.1 h with hrest | ⟨bs, -, h⟩
    · obtain ⟨a', ha', hfa'⟩ := ih hrest
      exact ⟨a', List.mem_cons_of_mem _ ha', hfa'⟩
    · exact absurd h pure_ne_error

/-- A check of all elements passes when each passes. -/
theorem forM_eq_ok_iff {f : α → Except ε Unit} {as : List α} :
    as.forM f = .ok () ↔ ∀ a ∈ as, f a = .ok () := by
  induction as with
  | nil => simp [pure, Except.pure]
  | cons a as ih =>
    rw [List.forall_mem_cons, ← ih]
    constructor
    · intro h
      obtain ⟨⟨⟩, hfirst, hrest⟩ := bind_eq_ok_iff.1 h
      exact ⟨hfirst, hrest⟩
    · rintro ⟨hfirst, hrest⟩
      exact bind_eq_ok_iff.2 ⟨⟨⟩, hfirst, hrest⟩

/-- A check of all elements fails as one of them does. -/
theorem exists_of_forM_eq_error {f : α → Except ε Unit} {as : List α} {e : ε}
    (h : as.forM f = .error e) : ∃ a ∈ as, f a = .error e := by
  induction as with
  | nil => exact absurd h pure_ne_error
  | cons a as ih =>
    rcases bind_eq_error_iff.1 h with hfirst | ⟨⟨⟩, -, hrest⟩
    · exact ⟨a, List.mem_cons_self, hfirst⟩
    · obtain ⟨a', ha', hfa'⟩ := ih hrest
      exact ⟨a', List.mem_cons_of_mem _ ha', hfa'⟩

/-! ## Lists put together -/

/-- The lists that several computations give, one after another. -/
def concat : List (Except ε (List α)) → Except ε (List α)
  | [] => .ok []
  | x :: rest => do return (← x) ++ (← concat rest)

theorem concat_cons_eq_ok_iff {x : Except ε (List α)} {rest : List (Except ε (List α))}
    {as : List α} :
    concat (x :: rest) = .ok as ↔ ∃ first later, x = .ok first ∧ concat rest = .ok later ∧
      first ++ later = as := by
  simp only [concat, bind_eq_ok_iff, pure_eq_ok_iff, exists_and_left]

/-- What is put together are the results of computations that all give one. -/
theorem exists_of_concat_map_eq_ok {f : β → Except ε (List α)} {bs : List β} {as : List α}
    (h : concat (bs.map f) = .ok as) :
    ∃ result : β → List α, (∀ b ∈ bs, f b = .ok (result b)) ∧ as = bs.flatMap result := by
  refine ⟨fun b => (f b).toOption.getD [], ?_⟩
  induction bs generalizing as with
  | nil =>
    obtain rfl := Except.ok.inj h
    exact ⟨nofun, rfl⟩
  | cons b bs ih =>
    obtain ⟨first, later, hfirst, hlater, rfl⟩ := concat_cons_eq_ok_iff.1 h
    obtain ⟨hall, rfl⟩ := ih hlater
    refine ⟨List.forall_mem_cons.2 ⟨?_, hall⟩, ?_⟩
    · dsimp only
      rw [hfirst]
      rfl
    · rw [List.flatMap_cons, hfirst]
      rfl

theorem concat_append (xs ys : List (Except ε (List α))) :
    concat (xs ++ ys) = (do return (← concat xs) ++ (← concat ys)) := by
  induction xs with
  | nil => cases hys : concat ys <;> simp [concat, hys, pure, bind, Except.pure, Except.bind]
  | cons x xs ih =>
    rw [List.cons_append, concat, ih, concat]
    simp only [bind_assoc, pure_bind, List.append_assoc]

/-- What is put together in two stages may be put together at once. -/
theorem concat_flatMap (f : β → List (Except ε (List α))) (bs : List β) :
    concat (bs.flatMap f) = concat (bs.map fun b => concat (f b)) := by
  induction bs with
  | nil => rfl
  | cons b bs ih => rw [List.flatMap_cons, concat_append, ih, List.map_cons, concat]

/-- Computations that give nothing may be left out. -/
theorem concat_map_filter {f : β → Except ε (List α)} {p : β → Bool}
    (h : ∀ b, p b = false → f b = .ok []) (bs : List β) :
    concat (bs.map f) = concat ((bs.filter p).map f) := by
  induction bs with
  | nil => rfl
  | cons b bs ih =>
    rw [List.map_cons, concat, ih]
    cases hb : p b with
    | true => rw [List.filter_cons_of_pos hb, List.map_cons, concat]
    | false =>
      rw [List.filter_cons_of_neg (by simp [hb]), h b hb]
      cases concat ((bs.filter p).map f) <;> rfl

/-! ## Two computations -/

/-- Both computations fail with the same error, or give related results. -/
inductive Related (R : α → β → Prop) : Except ε α → Except ε β → Prop
  | ok {a : α} {b : β} : R a b → Related R (.ok a) (.ok b)
  | error (e : ε) : Related R (.error e) (.error e)

namespace Related

variable {γ δ : Type} {R : α → β → Prop} {S : γ → δ → Prop}

theorem refl (x : Except ε α) : Related Eq x x := by
  cases x with
  | error e => exact .error e
  | ok a => exact .ok rfl

theorem bind {x : Except ε α} {y : Except ε β} {f : α → Except ε γ} {g : β → Except ε δ}
    (h : Related R x y) (hfg : ∀ a b, R a b → Related S (f a) (g b)) :
    Related S (x >>= f) (y >>= g) := by
  cases h with
  | error e => exact .error e
  | ok hab => exact hfg _ _ hab

/-- Related elements have related outcomes. -/
theorem mapM {f : α → Except ε γ} {g : β → Except ε δ} {as : List α} {bs : List β}
    (h : List.Forall₂ R as bs) (hfg : ∀ a b, R a b → Related S (f a) (g b)) :
    Related (List.Forall₂ S) (as.mapM f) (bs.mapM g) := by
  induction h with
  | nil => exact .ok .nil
  | cons hab _ ih =>
    rw [List.mapM_cons, List.mapM_cons]
    exact (hfg _ _ hab).bind fun c d hcd => ih.bind fun cs ds hrest => .ok (.cons hcd hrest)

/-- Lists that are put together from related ones are related. -/
theorem concat {xs : List (Except ε (List α))} {ys : List (Except ε (List β))}
    (h : List.Forall₂ (Related (List.Forall₂ R)) xs ys) :
    Related (List.Forall₂ R) (Outcome.concat xs) (Outcome.concat ys) := by
  induction h with
  | nil => exact .ok .nil
  | cons hxy _ ih =>
    exact hxy.bind fun as bs hab => ih.bind fun cs ds hrest => .ok (List.rel_append hab hrest)

end Related

end Codemod.Outcome
