import Codemod.Migration.Pair
import Codemod.Proofs.Outcome
/-!
# What validation finds of a pair

Validation takes two rules that each have one template on either side, with one
parameter each (`MigrationPair.Direction`), and compares their types
(`MigrationPair.validate_eq_ok_iff`). So a pair that was validated has two rules
of one form (`MigrationPair.Converts`): each has one template on either side, and
both templates take one value of the type that the rule converts from.
-/

namespace Codemod

open Outcome

namespace MigrationHalf

variable {pair : String} {rule : Rule} {h : MigrationHalf} {t : Template} {ty : Ty}

theorem ofRule_eq_ok_iff :
    ofRule pair rule = .ok h ↔
      h.rule = rule ∧ rule.before = [h.before] ∧ rule.after = [h.after] := by
  unfold ofRule
  constructor
  · intro hrule
    split at hrule
    · rename_i hbefore hafter
      obtain rfl := Except.ok.inj hrule
      exact ⟨rfl, hbefore, hafter⟩
    · exact absurd hrule nofun
  · rintro ⟨rfl, hbefore, hafter⟩
    rw [hbefore, hafter]

theorem paramTy_eq_ok_iff : paramTy pair rule t = .ok ty ↔ ∃ p, t.params = [p] ∧ p.ty = ty := by
  unfold paramTy
  constructor
  · intro h
    split at h
    · rename_i p hparams
      exact ⟨p, hparams, Except.ok.inj h⟩
    · exact absurd h nofun
  · rintro ⟨p, hparams, rfl⟩
    rw [hparams]

theorem paramTys_eq_ok_iff {tys : Ty × Ty} :
    h.paramTys pair = .ok tys ↔
      (∃ p, h.before.params = [p] ∧ p.ty = tys.1) ∧
        ∃ p, h.after.params = [p] ∧ p.ty = tys.2 := by
  constructor
  · intro htys
    obtain ⟨beforeTy, hbeforeTy, htys⟩ := bind_eq_ok_iff.1 htys
    obtain ⟨afterTy, hafterTy, htys⟩ := bind_eq_ok_iff.1 htys
    obtain rfl := pure_eq_ok_iff.1 htys
    exact ⟨paramTy_eq_ok_iff.1 hbeforeTy, paramTy_eq_ok_iff.1 hafterTy⟩
  · rintro ⟨hbeforeTy, hafterTy⟩
    exact bind_eq_ok_iff.2 ⟨tys.1, paramTy_eq_ok_iff.2 hbeforeTy,
      bind_eq_ok_iff.2 ⟨tys.2, paramTy_eq_ok_iff.2 hafterTy, rfl⟩⟩

/-- A check that is passed or fails. -/
theorem ite_error_eq_ok_iff {c : Prop} [Decidable c] {e : MigrationError} :
    (if c then .ok () else .error e : Except MigrationError Unit) = .ok () ↔ c := by
  split <;> simp_all

theorem checkShape_eq_ok_iff {beforeTy afterTy : Ty} :
    h.checkShape pair beforeTy afterTy = .ok () ↔
      beforeTy.equivalent h.before.returnType = true ∧ beforeTy.equivalent afterTy = true := by
  have huse {t : Template} {actual : Ty} :
      checkUse pair h.rule t beforeTy actual = .ok () ↔ beforeTy.equivalent actual = true :=
    ite_error_eq_ok_iff
  rw [checkShape, bind_eq_ok_iff, ← huse (t := h.before), ← huse (t := h.after)]
  exact ⟨fun ⟨_, hreturn, hafter⟩ => ⟨hreturn, hafter⟩, fun ⟨hreturn, hafter⟩ =>
    ⟨(), hreturn, hafter⟩⟩

theorem checkProduct_eq_ok_iff {consumed : Ty} :
    h.checkProduct pair consumed = .ok () ↔ h.after.returnType.equivalent consumed = true :=
  ite_error_eq_ok_iff

theorem checkEndpoint_eq_ok_iff {endpoint : String} {declared : Option Ty} {actual : Ty} :
    checkEndpoint pair rule endpoint declared actual = .ok () ↔
      ∀ ty ∈ declared, ty.name? = actual.name? := by
  cases declared with
  | none => exact ⟨fun _ => nofun, fun _ => rfl⟩
  | some ty =>
    rw [checkEndpoint, ite_error_eq_ok_iff]
    exact ⟨fun hname _ hty => Option.some.inj hty ▸ hname, fun hname => hname ty rfl⟩

end MigrationHalf

/-- The ends that the rule declares, if any, are of the classes of the types
between which it converts. -/
structure Rule.DeclaresEnds (rule : Rule) (fromTy toTy : Ty) : Prop where
  from_name : ∀ ty ∈ rule.descriptor.fromTy, ty.name? = fromTy.name?
  to_name : ∀ ty ∈ rule.descriptor.toTy, ty.name? = toTy.name?

theorem MigrationHalf.checkEndpoints_eq_ok_iff {pair : String} {h : MigrationHalf}
    {beforeTy : Ty} :
    h.checkEndpoints pair beforeTy = .ok () ↔ h.rule.DeclaresEnds beforeTy h.after.returnType := by
  rw [checkEndpoints, bind_eq_ok_iff]
  constructor
  · rintro ⟨_, hfrom, hto⟩
    exact ⟨checkEndpoint_eq_ok_iff.1 hfrom, checkEndpoint_eq_ok_iff.1 hto⟩
  · intro hends
    exact ⟨(), checkEndpoint_eq_ok_iff.2 hends.from_name, checkEndpoint_eq_ok_iff.2 hends.to_name⟩

namespace MigrationPair

open MigrationHalf

/-- The rule has one template on either side, and each takes one parameter. -/
structure Direction (rule : Rule) where
  before : Template
  after : Template
  /-- What the Before-Template takes. -/
  matched : Template.Placeholder
  /-- What the After-Template takes. -/
  converted : Template.Placeholder
  before_eq : rule.before = [before]
  after_eq : rule.after = [after]
  matched_eq : before.params = [matched]
  converted_eq : after.params = [converted]

/-- The types of two directions agree as far as validation compares them. -/
structure Direction.AgreesWith {forward backward : Rule} (d : Direction forward)
    (e : Direction backward) : Prop where
  gives : d.matched.ty.equivalent d.before.returnType = true
  converts : d.matched.ty.equivalent d.converted.ty = true
  gives_back : e.matched.ty.equivalent e.before.returnType = true
  converts_back : e.matched.ty.equivalent e.converted.ty = true
  makes : d.after.returnType.equivalent e.matched.ty = true
  makes_back : e.after.returnType.equivalent d.matched.ty = true
  ends : forward.DeclaresEnds d.matched.ty d.after.returnType
  ends_back : backward.DeclaresEnds e.matched.ty e.after.returnType

/-- **What validation accepts**: two directions whose types agree. It finds the
type that the first direction converts from, and the one that it makes. -/
theorem validate_eq_ok_iff {name : String} {forward backward : Rule} {tys : Ty × Ty} :
    validate name forward backward = .ok tys ↔
      ∃ (d : Direction forward) (e : Direction backward),
        d.AgreesWith e ∧ tys = (d.matched.ty, d.after.returnType) := by
  constructor
  · intro h
    obtain ⟨f, hf, h⟩ := bind_eq_ok_iff.1 h
    obtain ⟨b, hb, h⟩ := bind_eq_ok_iff.1 h
    obtain ⟨⟨fromTy, fAfter⟩, hfTys, h⟩ := bind_eq_ok_iff.1 h
    obtain ⟨⟨taken, bAfter⟩, hbTys, h⟩ := bind_eq_ok_iff.1 h
    obtain ⟨_, hfShape, h⟩ := bind_eq_ok_iff.1 h
    obtain ⟨_, hbShape, h⟩ := bind_eq_ok_iff.1 h
    obtain ⟨_, hfProduct, h⟩ := bind_eq_ok_iff.1 h
    obtain ⟨_, hbProduct, h⟩ := bind_eq_ok_iff.1 h
    obtain ⟨_, hfEnds, h⟩ := bind_eq_ok_iff.1 h
    obtain ⟨_, hbEnds, h⟩ := bind_eq_ok_iff.1 h
    obtain rfl := pure_eq_ok_iff.1 h
    obtain ⟨rfl, hfBefore, hfAfter⟩ := ofRule_eq_ok_iff.1 hf
    obtain ⟨rfl, hbBefore, hbAfter⟩ := ofRule_eq_ok_iff.1 hb
    obtain ⟨⟨p, hp, rfl⟩, q, hq, rfl⟩ := paramTys_eq_ok_iff.1 hfTys
    obtain ⟨⟨r, hr, rfl⟩, s, hs, rfl⟩ := paramTys_eq_ok_iff.1 hbTys
    obtain ⟨hgives, hconverts⟩ := checkShape_eq_ok_iff.1 hfShape
    obtain ⟨hgives', hconverts'⟩ := checkShape_eq_ok_iff.1 hbShape
    exact ⟨⟨f.before, f.after, p, q, hfBefore, hfAfter, hp, hq⟩,
      ⟨b.before, b.after, r, s, hbBefore, hbAfter, hr, hs⟩,
      ⟨hgives, hconverts, hgives', hconverts', checkProduct_eq_ok_iff.1 hfProduct,
        checkProduct_eq_ok_iff.1 hbProduct, checkEndpoints_eq_ok_iff.1 hfEnds,
        checkEndpoints_eq_ok_iff.1 hbEnds⟩, rfl⟩
  · rintro ⟨d, e, h, rfl⟩
    let f : MigrationHalf := ⟨forward, d.before, d.after⟩
    let b : MigrationHalf := ⟨backward, e.before, e.after⟩
    have hf : ofRule name forward = .ok f := ofRule_eq_ok_iff.2 ⟨rfl, d.before_eq, d.after_eq⟩
    have hb : ofRule name backward = .ok b := ofRule_eq_ok_iff.2 ⟨rfl, e.before_eq, e.after_eq⟩
    have hfTys : f.paramTys name = .ok (d.matched.ty, d.converted.ty) :=
      paramTys_eq_ok_iff.2 ⟨⟨_, d.matched_eq, rfl⟩, _, d.converted_eq, rfl⟩
    have hbTys : b.paramTys name = .ok (e.matched.ty, e.converted.ty) :=
      paramTys_eq_ok_iff.2 ⟨⟨_, e.matched_eq, rfl⟩, _, e.converted_eq, rfl⟩
    refine bind_eq_ok_iff.2 ⟨f, hf, bind_eq_ok_iff.2 ⟨b, hb, bind_eq_ok_iff.2 ⟨_, hfTys,
      bind_eq_ok_iff.2 ⟨_, hbTys, ?_⟩⟩⟩⟩
    refine bind_eq_ok_iff.2 ⟨(), checkShape_eq_ok_iff.2 ⟨h.gives, h.converts⟩,
      bind_eq_ok_iff.2 ⟨(), checkShape_eq_ok_iff.2 ⟨h.gives_back, h.converts_back⟩, ?_⟩⟩
    refine bind_eq_ok_iff.2 ⟨(), checkProduct_eq_ok_iff.2 h.makes,
      bind_eq_ok_iff.2 ⟨(), checkProduct_eq_ok_iff.2 h.makes_back, ?_⟩⟩
    exact bind_eq_ok_iff.2 ⟨(), checkEndpoints_eq_ok_iff.2 h.ends,
      bind_eq_ok_iff.2 ⟨(), checkEndpoints_eq_ok_iff.2 h.ends_back, rfl⟩⟩

/-- The rule converts values of a type: it has one template on either side, and
the Before-Template takes one parameter of the type and gives a value of it. -/
structure Converts (rule : Rule) (ty : Ty) (before after : Template)
    (p : Template.Placeholder) : Prop where
  before_eq : rule.before = [before]
  after_eq : rule.after = [after]
  params_eq : before.params = [p]
  ty_eq : p.ty = ty
  gives : ty.equivalent before.returnType = true

/-- The rules of the pair line up. -/
def IsValidated (pair : MigrationPair) : Prop :=
  ofRules pair.name pair.forward pair.backward = .ok pair

/-- A validated pair has two directions whose types agree, and its types are those
that the forward direction converts from and to. -/
theorem IsValidated.exists_directions {pair : MigrationPair} (h : pair.IsValidated) :
    ∃ (d : Direction pair.forward) (e : Direction pair.backward), d.AgreesWith e ∧
      d.matched.ty = pair.typeFrom ∧ d.after.returnType = pair.typeTo := by
  obtain ⟨tys, hvalidate, hpair⟩ := bind_eq_ok_iff.1 h
  have hpair := pure_eq_ok_iff.1 hpair
  obtain ⟨d, e, hagree, rfl⟩ := validate_eq_ok_iff.1 hvalidate
  exact ⟨d, e, hagree, congrArg typeFrom hpair, congrArg typeTo hpair⟩

/-- **The forward rule of a validated pair converts** from the first type of the
pair. -/
theorem IsValidated.exists_converts {pair : MigrationPair} (h : pair.IsValidated) :
    ∃ before after p, Converts pair.forward pair.typeFrom before after p := by
  obtain ⟨d, _, hagree, hfrom, -⟩ := h.exists_directions
  exact ⟨d.before, d.after, d.matched, d.before_eq, d.after_eq, d.matched_eq, hfrom,
    hfrom ▸ hagree.gives⟩

end MigrationPair

end Codemod
