import Codemod.Tree.Shape
/-!
# Having the same shape

Grouping parentheses around either expression make no difference to
`Node.sameShape` (`sameShape_skipParens_left`, `sameShape_skipParens_right`),
and it is symmetric and transitive. It is not reflexive: a statement has no
shape, nor has an expression around one, and a constant that is no number
equals nothing.
-/

namespace Codemod

namespace Double

theorem sameNumber_comm (x y : Double) : x.sameNumber y = y.sameNumber x := by
  have hbits : (x.bits == y.bits) = (y.bits == x.bits) := Bool.beq_comm
  rw [sameNumber, sameNumber, hbits, Bool.and_comm (!x.isNaN), Bool.and_comm x.isZero]

theorem sameNumber_trans {x y z : Double} (hxy : x.sameNumber y = true)
    (hyz : y.sameNumber z = true) : x.sameNumber z = true := by
  simp only [sameNumber, Bool.and_eq_true, Bool.or_eq_true, beq_iff_eq] at hxy hyz ⊢
  have heq : ∀ {a b : Double}, a.bits = b.bits → a = b := by
    rintro ⟨_⟩ ⟨_⟩ rfl
    rfl
  refine ⟨⟨hxy.1.1, hyz.1.2⟩, ?_⟩
  rcases hxy.2 with h | h
  · rw [heq h]
    exact hyz.2
  · rcases hyz.2 with h' | h'
    · rw [← heq h']
      exact .inr h
    · exact .inr ⟨h.1, h'.2⟩

end Double

namespace Literal

/-- Constants agree when they are equal or are numbers that agree. -/
theorem beq_iff {a b : Literal} :
    (a == b) = true ↔
      (∃ x y, a = .float x ∧ b = .float y ∧ x.sameNumber y = true) ∨
        ((∀ x, a ≠ .float x) ∧ a = b) := by
  change Literal.beq a b = true ↔ _
  cases a <;> cases b <;> simp [Literal.beq]

theorem beq_comm (a b : Literal) : (a == b) = (b == a) := by
  rw [Bool.eq_iff_iff, beq_iff, beq_iff]
  constructor
  · rintro (⟨x, y, rfl, rfl, hxy⟩ | ⟨ha, rfl⟩)
    · exact .inl ⟨y, x, rfl, rfl, Double.sameNumber_comm x y ▸ hxy⟩
    · exact .inr ⟨ha, rfl⟩
  · rintro (⟨x, y, rfl, rfl, hxy⟩ | ⟨ha, rfl⟩)
    · exact .inl ⟨y, x, rfl, rfl, Double.sameNumber_comm x y ▸ hxy⟩
    · exact .inr ⟨ha, rfl⟩

theorem beq_trans {a b c : Literal} (hab : (a == b) = true) (hbc : (b == c) = true) :
    (a == c) = true := by
  rcases beq_iff.1 hab with ⟨x, y, rfl, rfl, hxy⟩ | ⟨-, rfl⟩
  · rcases beq_iff.1 hbc with ⟨y', z, hy, rfl, hyz⟩ | ⟨hne, -⟩
    · obtain rfl := Literal.float.inj hy
      exact beq_iff.2 (.inl ⟨x, z, rfl, rfl, Double.sameNumber_trans hxy hyz⟩)
    · exact absurd rfl (hne y)
  · exact hbc

end Literal

namespace Node

/-! ## Parentheses -/

theorem skipParens_skipParens (n : Node) : n.skipParens.skipParens = n.skipParens := by
  cases n
  case paren _ expr => exact skipParens_skipParens expr
  all_goals rfl

theorem skipParens_eq_self {n : Node} (h : n.isParen = false) : n.skipParens = n := by
  cases n
  case paren => exact absurd h nofun
  all_goals rfl

/-- What remains when all grouping parentheses are skipped stands in none. -/
theorem isParen_skipParens (n : Node) : n.skipParens.isParen = false := by
  cases n
  case paren _ expr => exact isParen_skipParens expr
  all_goals rfl

theorem sameShape_skipParens_left (a b : Node) : a.skipParens.sameShape b = a.sameShape b := by
  cases a
  case paren _ expr => exact sameShape_skipParens_left expr b
  all_goals rfl

theorem sameShape_skipParens_right (a b : Node) : a.sameShape b.skipParens = a.sameShape b := by
  cases a
  case paren _ expr => exact sameShape_skipParens_right expr b
  all_goals simp only [sameShape, skipParens_skipParens]

/-! ## Symmetry and transitivity

Both go along the first tree. Its constructor decides the constructor of the
other tree without its parentheses, and then that of the third. -/

mutual

theorem sameShape_symm {a b : Node} (h : a.sameShape b = true) : b.sameShape a = true := by
  cases a
  case paren _ expr =>
    rw [← sameShape_skipParens_right]
    exact sameShape_skipParens_right b expr ▸ sameShape_symm h
  all_goals
    rw [← sameShape_skipParens_left]
    simp only [sameShape] at h
  case ident =>
    split at h
    · rename_i heq
      rw [heq]
      exact beq_iff_eq.2 (beq_iff_eq.1 h).symm
    · exact absurd h (by simp)
  case literal =>
    split at h
    · rename_i heq
      rw [heq]
      exact (Literal.beq_comm _ _).trans h
    · exact absurd h (by simp)
  case select | methodRef | unary | cast =>
    split at h
    · rename_i heq
      rw [heq]
      simp only [Bool.and_eq_true, beq_iff_eq] at h
      simp [sameShape, skipParens, h.1, sameShape_symm h.2]
    · exact absurd h (by simp)
  case call =>
    split at h
    · rename_i heq
      rw [heq]
      rw [Bool.and_eq_true] at h
      simp [sameShape, skipParens, sameShape_symm h.1, sameShapes_symm h.2]
    · exact absurd h (by simp)
  case binary =>
    split at h
    · rename_i heq
      rw [heq]
      simp only [Bool.and_eq_true, beq_iff_eq] at h
      simp [sameShape, skipParens, h.1.1, sameShape_symm h.1.2, sameShape_symm h.2]
    · exact absurd h (by simp)
  all_goals exact absurd h (by simp)

theorem sameShapes_symm {as bs : List Node} (h : sameShapes as bs = true) :
    sameShapes bs as = true := by
  match as, bs with
  | [], [] => rfl
  | a :: as, b :: bs =>
    rw [sameShapes, Bool.and_eq_true] at h ⊢
    exact ⟨sameShape_symm h.1, sameShapes_symm h.2⟩
  | [], _ :: _ => exact absurd h (by simp [sameShapes])
  | _ :: _, [] => exact absurd h (by simp [sameShapes])

end

mutual

theorem sameShape_trans {a b c : Node} (hab : a.sameShape b = true) (hbc : b.sameShape c = true) :
    a.sameShape c = true := by
  cases a
  case paren _ expr => exact sameShape_trans (a := expr) hab hbc
  all_goals
    rw [← sameShape_skipParens_left] at hbc
    simp only [sameShape] at hab ⊢
  case ident | literal =>
    split at hab
    · rename_i heq
      rw [heq] at hbc
      simp only [sameShape] at hbc
      split at hbc
      · first
          | exact Literal.beq_trans hab hbc
          | exact (beq_iff_eq.1 hab).symm ▸ hbc
      · exact absurd hbc (by simp)
    · exact absurd hab (by simp)
  case select | methodRef | unary | cast =>
    split at hab
    · rename_i heq
      rw [heq] at hbc
      simp only [sameShape] at hbc
      split at hbc
      · simp only [Bool.and_eq_true, beq_iff_eq] at hab hbc ⊢
        exact ⟨hab.1.trans hbc.1, sameShape_trans hab.2 hbc.2⟩
      · exact absurd hbc (by simp)
    · exact absurd hab (by simp)
  case call =>
    split at hab
    · rename_i heq
      rw [heq] at hbc
      simp only [sameShape] at hbc
      split at hbc
      · simp only [Bool.and_eq_true] at hab hbc ⊢
        exact ⟨sameShape_trans hab.1 hbc.1, sameShapes_trans hab.2 hbc.2⟩
      · exact absurd hbc (by simp)
    · exact absurd hab (by simp)
  case binary =>
    split at hab
    · rename_i heq
      rw [heq] at hbc
      simp only [sameShape] at hbc
      split at hbc
      · simp only [Bool.and_eq_true, beq_iff_eq] at hab hbc ⊢
        exact ⟨⟨hab.1.1.trans hbc.1.1, sameShape_trans hab.1.2 hbc.1.2⟩,
          sameShape_trans hab.2 hbc.2⟩
      · exact absurd hbc (by simp)
    · exact absurd hab (by simp)
  all_goals exact absurd hab (by simp)

theorem sameShapes_trans {as bs cs : List Node} (hab : sameShapes as bs = true)
    (hbc : sameShapes bs cs = true) : sameShapes as cs = true := by
  match as, bs, cs with
  | [], [], [] => rfl
  | a :: as, b :: bs, c :: cs =>
    rw [sameShapes, Bool.and_eq_true] at hab hbc ⊢
    exact ⟨sameShape_trans hab.1 hbc.1, sameShapes_trans hab.2 hbc.2⟩
  | [], _ :: _, _ => exact absurd hab (by simp [sameShapes])
  | _ :: _, [], _ => exact absurd hab (by simp [sameShapes])
  | _, [], _ :: _ => exact absurd hbc (by simp [sameShapes])
  | _, _ :: _, [] => exact absurd hbc (by simp [sameShapes])

end

end Node

end Codemod
