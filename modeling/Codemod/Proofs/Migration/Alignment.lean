import Codemod.Proofs.Migration.RoundTrip
import Codemod.Proofs.Types.Equivalence
/-!
# Rules that line up

Validation compares six pairs of types, each with the type that one direction
takes. As the root type has no arguments, agreement is transitive, and so any two
types agree that agree with a third (`Ty.allAgree_cons_iff`): two rules are
accepted exactly when all types at either end of the migration agree
(`MigrationPair.exists_validate_iff_lineUp`). Which of the two rules is called the
forward one makes no difference to this.
-/

namespace Codemod

/-- Any two of the types are equivalent. -/
def Ty.AllAgree (tys : List Ty) : Prop := ∀ a ∈ tys, ∀ b ∈ tys, a.equivalent b = true

/-- **Types agree when they agree with one of them.** -/
theorem Ty.allAgree_cons_iff {a : Ty} {tys : List Ty}
    (h : ∀ ty ∈ a :: tys, ty.hasPlainRoot = true) :
    AllAgree (a :: tys) ↔ ∀ b ∈ tys, a.equivalent b = true := by
  constructor
  · intro hall b hb
    exact hall a List.mem_cons_self b (List.mem_cons_of_mem _ hb)
  · intro hfirst
    have hall : ∀ b ∈ a :: tys, a.equivalent b = true :=
      List.forall_mem_cons.2 ⟨a.equivalent_refl, hfirst⟩
    intro b hb c hc
    exact equivalent_trans (h b hb) (h c hc) (equivalent_symm (hall b hb)) (hall c hc)

/-- No type of the rule's templates gives the root type arguments. -/
def Rule.HasPlainRoots (rule : Rule) : Prop :=
  ∀ t ∈ rule.before ++ rule.after, t.returnType.hasPlainRoot = true ∧
    ∀ p ∈ t.params, p.ty.hasPlainRoot = true

namespace MigrationPair

variable {name : String} {forward backward : Rule} {d : Direction forward}
  {e : Direction backward}

/-- All types of a rule's templates. -/
def Direction.tys (d : Direction forward) : List Ty :=
  [d.matched.ty, d.before.returnType, d.converted.ty, d.after.returnType]

theorem Direction.hasPlainRoot (d : Direction forward) (h : forward.HasPlainRoots) :
    ∀ ty ∈ d.tys, ty.hasPlainRoot = true := by
  obtain ⟨hbefore, hmatched⟩ := h d.before (by simp [d.before_eq])
  obtain ⟨hafter, hconverted⟩ := h d.after (by simp [d.after_eq])
  have hfirst := hmatched d.matched (by simp [d.matched_eq])
  have hthird := hconverted d.converted (by simp [d.converted_eq])
  simp [tys, hfirst, hbefore, hthird, hafter]

/-- **The two directions line up**: what is at one end of the migration is all of
one type, and each rule declares the ends it has, or none. -/
structure Direction.LineUp (d : Direction forward) (e : Direction backward) : Prop where
  fromTys : Ty.AllAgree
    [d.matched.ty, d.before.returnType, d.converted.ty, e.after.returnType]
  toTys : Ty.AllAgree [e.matched.ty, e.before.returnType, e.converted.ty, d.after.returnType]
  ends : forward.DeclaresEnds d.matched.ty d.after.returnType
  ends_back : backward.DeclaresEnds e.matched.ty e.after.returnType

/-- Which rule is the forward one makes no difference. -/
theorem Direction.LineUp.swap (h : d.LineUp e) : e.LineUp d where
  fromTys := h.toTys
  toTys := h.fromTys
  ends := h.ends_back
  ends_back := h.ends

/-- **The types that validation compares stand for all of them.** -/
theorem Direction.lineUp_iff (hforward : forward.HasPlainRoots)
    (hbackward : backward.HasPlainRoots) : d.LineUp e ↔ d.AgreesWith e := by
  have hd := d.hasPlainRoot hforward
  have he := e.hasPlainRoot hbackward
  have hfrom : ∀ ty ∈ [d.matched.ty, d.before.returnType, d.converted.ty, e.after.returnType],
      ty.hasPlainRoot = true := by
    simp only [tys, List.forall_mem_cons] at hd he ⊢
    exact ⟨hd.1, hd.2.1, hd.2.2.1, he.2.2.2.1, List.forall_mem_nil _⟩
  have hto : ∀ ty ∈ [e.matched.ty, e.before.returnType, e.converted.ty, d.after.returnType],
      ty.hasPlainRoot = true := by
    simp only [tys, List.forall_mem_cons] at hd he ⊢
    exact ⟨he.1, he.2.1, he.2.2.1, hd.2.2.2.1, List.forall_mem_nil _⟩
  constructor
  · intro h
    have hfromTys := (Ty.allAgree_cons_iff hfrom).1 h.fromTys
    have htoTys := (Ty.allAgree_cons_iff hto).1 h.toTys
    simp only [List.forall_mem_cons] at hfromTys htoTys
    exact ⟨hfromTys.1, hfromTys.2.1, htoTys.1, htoTys.2.1, Ty.equivalent_symm htoTys.2.2.1,
      Ty.equivalent_symm hfromTys.2.2.1, h.ends, h.ends_back⟩
  · intro h
    refine ⟨(Ty.allAgree_cons_iff hfrom).2 ?_, (Ty.allAgree_cons_iff hto).2 ?_, h.ends,
      h.ends_back⟩
    · simp only [List.forall_mem_cons]
      exact ⟨h.gives, h.converts, Ty.equivalent_symm h.makes_back, List.forall_mem_nil _⟩
    · simp only [List.forall_mem_cons]
      exact ⟨h.gives_back, h.converts_back, Ty.equivalent_symm h.makes, List.forall_mem_nil _⟩

/-- Two rules line up if they are directions that do. -/
def LineUp (forward backward : Rule) : Prop :=
  ∃ (d : Direction forward) (e : Direction backward), d.LineUp e

theorem lineUp_comm : LineUp backward forward ↔ LineUp forward backward :=
  ⟨fun ⟨e, d, h⟩ => ⟨d, e, h.swap⟩, fun ⟨d, e, h⟩ => ⟨e, d, h.swap⟩⟩

/-- A rule is a direction in one way. -/
instance (rule : Rule) : Subsingleton (Direction rule) where
  allEq := by
    rintro ⟨before, after, matched, converted, hbefore, hafter, hmatched, hconverted⟩
      ⟨before', after', matched', converted', hbefore', hafter', hmatched', hconverted'⟩
    obtain rfl : before = before' := List.singleton_inj.1 (hbefore.symm.trans hbefore')
    obtain rfl : after = after' := List.singleton_inj.1 (hafter.symm.trans hafter')
    obtain rfl : matched = matched' := List.singleton_inj.1 (hmatched.symm.trans hmatched')
    obtain rfl : converted = converted' :=
      List.singleton_inj.1 (hconverted.symm.trans hconverted')
    rfl

theorem exists_validate_iff (hforward : forward.HasPlainRoots)
    (hbackward : backward.HasPlainRoots) :
    (∃ tys, validate name forward backward = .ok tys) ↔ LineUp forward backward := by
  constructor
  · rintro ⟨tys, htys⟩
    obtain ⟨d, e, hagree, -⟩ := validate_eq_ok_iff.1 htys
    exact ⟨d, e, (Direction.lineUp_iff hforward hbackward).2 hagree⟩
  · rintro ⟨d, e, h⟩
    exact ⟨_, validate_eq_ok_iff.2 ⟨d, e, (Direction.lineUp_iff hforward hbackward).1 h, rfl⟩⟩

/-- **Exactly the rules that line up are accepted**, whichever is the forward one,
and the other way round they convert between the same two types. -/
theorem exists_validate_iff_lineUp (name : String) {forward backward : Rule}
    (hforward : forward.HasPlainRoots) (hbackward : backward.HasPlainRoots) :
    ((∃ tys, validate name forward backward = .ok tys) ↔ LineUp forward backward) ∧
      ((∃ tys, validate name backward forward = .ok tys) ↔
        ∃ tys, validate name forward backward = .ok tys) ∧
      ∀ tys tys', validate name forward backward = .ok tys →
        validate name backward forward = .ok tys' →
          tys'.1.equivalent tys.2 = true ∧ tys'.2.equivalent tys.1 = true := by
  refine ⟨exists_validate_iff hforward hbackward, ?_, fun tys tys' htys htys' => ?_⟩
  · rw [exists_validate_iff hforward hbackward, exists_validate_iff hbackward hforward]
    exact lineUp_comm
  · obtain ⟨d, e, hagree, rfl⟩ := validate_eq_ok_iff.1 htys
    obtain ⟨e', d', -, rfl⟩ := validate_eq_ok_iff.1 htys'
    obtain rfl := Subsingleton.elim d d'
    obtain rfl := Subsingleton.elim e e'
    exact ⟨Ty.equivalent_symm hagree.makes, hagree.makes_back⟩

/-! ## A pair whose variables go by several names -/

/-- A type variable that the root type bounds, as it bounds every variable. -/
def rootBounded (name : String) : Ty := .var name (some (.plain Name.object)) none

/-- `Mono<T>` becomes `Single<U>`, and `Single<V extends Object>` becomes `Mono<W>`. -/
def severalNames : MigrationPair :=
  ofConversions (monoTy (unbounded "T")) (monoTy (rootBounded "U")) (singleTy (unbounded "U"))
    (singleTy (rootBounded "V")) (monoTy (unbounded "W"))

theorem hasPlainRoots_severalNames :
    severalNames.forward.HasPlainRoots ∧ severalNames.backward.HasPlainRoots := by
  unfold Rule.HasPlainRoots
  decide

/-- The rules line up, and also when the backward one is called the forward one. -/
theorem lineUp_severalNames :
    (severalNames.forward.HasPlainRoots ∧ severalNames.backward.HasPlainRoots) ∧
      LineUp severalNames.forward severalNames.backward ∧
      ∃ tys, validate "Back" severalNames.backward severalNames.forward = .ok tys ∧
        tys.1.equivalent (singleTy (unbounded "U")) = true ∧
        tys.2.equivalent (monoTy (unbounded "T")) = true := by
  obtain ⟨hforward, hbackward⟩ := hasPlainRoots_severalNames
  obtain ⟨hlineUp, hswap, hends⟩ := exists_validate_iff_lineUp "Back" hforward hbackward
  have hvalid : validate "Back" severalNames.forward severalNames.backward =
      .ok (monoTy (unbounded "T"), singleTy (unbounded "U")) := rfl
  obtain ⟨tys, htys⟩ := hswap.2 ⟨_, hvalid⟩
  exact ⟨⟨hforward, hbackward⟩, hlineUp.1 ⟨_, hvalid⟩, tys, htys, hends _ tys hvalid htys⟩

end MigrationPair

end Codemod
