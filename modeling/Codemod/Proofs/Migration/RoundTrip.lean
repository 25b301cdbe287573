import Codemod.Proofs.Migration.Pair
import Codemod.Proofs.Types.Instances
/-!
# There and back

A value that is converted by the forward rule of a pair and then by the backward
rule has a type again (`MigrationPair.roundTrip?`). Validation compares the
types that the rules take and make up to the names of their variables, so which
variables are the same is left to the rules. Where they use them alike
(`MigrationPair.UsesVariablesAlike`), the type is the one there was at first,
whatever the variables stand for (`MigrationPair.roundTrip_eq_some`). Where they
do not, it may be another, or none (`MigrationPair.losesType_of_validated`).
-/

namespace Codemod

namespace Rule

/-- The type that a rule of one Before-Template with one parameter takes. -/
def takes? (r : Rule) : Option Ty :=
  match r.before with
  | [⟨_, _, [p], _, _⟩] => some p.ty
  | _ => none

/-- The type that a rule of one After-Template makes. -/
def makes? (r : Rule) : Option Ty :=
  match r.after with
  | [t] => some t.returnType
  | _ => none

/-- The type of what the rule makes of a value of a type. -/
def convertTy? (r : Rule) (o : TypeOracle) (actual : Ty) : Option Ty := do
  let types ← o.assign? (← r.takes?) actual ∅
  return (← r.makes?).substitute types

theorem takes?_eq {r : Rule} {t : Template} {p : Template.Placeholder} (hbefore : r.before = [t])
    (hparams : t.params = [p]) : r.takes? = some p.ty := by
  obtain ⟨name, typeParams, params, returnType, body⟩ := t
  obtain rfl : params = [p] := hparams
  simp [takes?, hbefore]

theorem makes?_eq {r : Rule} {t : Template} (hafter : r.after = [t]) :
    r.makes? = some t.returnType := by
  simp [makes?, hafter]

theorem convertTy?_eq {r : Rule} {o : TypeOracle} {taken made actual : Ty} {types : Dict Ty}
    (htakes : r.takes? = some taken) (hmakes : r.makes? = some made)
    (hassign : o.assign? taken actual ∅ = some types) :
    r.convertTy? o actual = some (made.substitute types) := by
  simp [convertTy?, htakes, hmakes, hassign]

end Rule

namespace MigrationPair

variable {pair : MigrationPair} {o : TypeOracle}

/-- The type of a value after it was converted and converted back. -/
def roundTrip? (pair : MigrationPair) (o : TypeOracle) (actual : Ty) : Option Ty := do
  pair.backward.convertTy? o (← pair.forward.convertTy? o actual)

/-- **The rules of a validated pair line up**: each makes what the other takes,
up to the names of variables. -/
theorem IsValidated.exists_types (h : pair.IsValidated) : ∃ taken made,
    pair.forward.takes? = some pair.typeFrom ∧ pair.forward.makes? = some pair.typeTo ∧
      pair.backward.takes? = some taken ∧ pair.backward.makes? = some made ∧
      pair.typeTo.equivalent taken = true ∧ made.equivalent pair.typeFrom = true := by
  obtain ⟨d, e, hagree, hfrom, hto⟩ := h.exists_directions
  refine ⟨e.matched.ty, e.after.returnType, hfrom ▸ Rule.takes?_eq d.before_eq d.matched_eq,
    hto ▸ Rule.makes?_eq d.after_eq, Rule.takes?_eq e.before_eq e.matched_eq,
    Rule.makes?_eq e.after_eq, hto ▸ hagree.makes, hfrom ▸ hagree.makes_back⟩

/-- The variables stand for types within their bounds. -/
def Instantiates (o : TypeOracle) (types : Dict Ty) (declared : Ty) : Prop :=
  ∀ v ∈ declared.vars, ∃ ty, v.StandsWithin o types ty

theorem Instantiates.exists_assign? {types : Dict Ty} {declared : Ty}
    (h : Instantiates o types declared) (ho : o.IsReflexive)
    (horder : TypeVar.BoundsInOrder [] declared.vars) :
    ∃ found, o.assign? declared (declared.substitute types) ∅ = some found ∧
      ∀ v ∈ declared.vars, found.get? v.name = types.get? v.name :=
  TypeOracle.exists_assign?_substitute ho
    (fun v hv => (h v hv).imp fun _ hstands => hstands.toStandsFor) horder

/-! ## Variables used alike -/

/-- Two rules use their variables alike, the one of which takes `fromTy` and
makes `toTy`, and the other `taken` and `made`. The renaming leads from the
variables of the other to those of the one. -/
structure VariablesLineUp (r : String → String) (fromTy toTy taken made : Ty) : Prop where
  /-- Neither rule makes a type of variables that it does not take. -/
  forward : ∀ v ∈ toTy.vars, ∃ w ∈ fromTy.vars, v.Corresponds id w ∧ v.RootBoundsAlike w
  backward : ∀ v ∈ made.vars, ∃ w ∈ taken.vars, w.name = v.name
  /-- Where the one takes what the other makes, the variables are the same. -/
  takenNames : taken.varNames.map r = toTy.varNames
  madeNames : made.varNames.map r = fromTy.varNames
  rootBounds : ∀ v ∈ taken.vars, ∀ w ∈ toTy.vars, r v.name = w.name → v.RootBoundsAlike w
  /-- A bound mentions no variable that comes later. -/
  fromInOrder : TypeVar.BoundsInOrder [] fromTy.vars
  takenInOrder : TypeVar.BoundsInOrder [] taken.vars

/-- The rules of the pair use their variables alike. -/
def UsesVariablesAlike (pair : MigrationPair) : Prop :=
  ∃ r taken made, pair.backward.takes? = some taken ∧ pair.backward.makes? = some made ∧
    VariablesLineUp r pair.typeFrom pair.typeTo taken made

/-- What one rule makes is taken by the other, whose variables stand for the same
by other names. -/
theorem VariablesLineUp.exists_instantiates {r : String → String} {fromTy toTy taken made : Ty}
    {types : Dict Ty} (h : VariablesLineUp r fromTy toTy taken made)
    (hproduct : taken.equivalent toTy = true) (htypes : Instantiates o types fromTy) :
    ∃ types', Instantiates o types' taken ∧
      ∀ v ∈ taken.vars, ∃ ty, types'.get? v.name = some ty ∧ types.get? (r v.name) = some ty := by
  obtain ⟨types', htypes', -⟩ := Dict.exists_get?_eq (fun name => types.get? (r name))
    (taken.vars.map (·.name))
  have hget : ∀ v ∈ taken.vars, types'.get? v.name = types.get? (r v.name) :=
    fun v hv => htypes' _ (List.mem_map_of_mem hv)
  have hinstantiates : Instantiates o types' taken := by
    intro v hv
    obtain ⟨u, hu, huv⟩ := Ty.exists_corresponding hproduct h.takenNames hv
    obtain ⟨w, hw, hwu, hroots⟩ := h.forward u hu
    obtain ⟨ty, hty⟩ := htypes w hw
    have hmid : u.StandsWithin o types ty :=
      hty.of_corresponds hwu hroots rfl fun _ _ => rfl
    refine ⟨ty, hmid.of_corresponds huv (h.rootBounds v hv u hu huv.name) (hget v hv) ?_⟩
    intro bound hbound
    rcases h.takenInOrder.exists_name_eq hv hbound with hknown | ⟨v', hv', hname⟩
    · exact absurd hknown List.not_mem_nil
    · exact hname ▸ hget v' hv'
  refine ⟨types', hinstantiates, fun v hv => ?_⟩
  obtain ⟨ty, hty⟩ := hinstantiates v hv
  exact ⟨ty, hty.get?_eq, hget v hv ▸ hty.get?_eq⟩

/-- **A value that is converted and converted back has the type it had**, if the
pair was validated and its rules use their variables alike. -/
theorem roundTrip_eq_some (hvalid : pair.IsValidated) (halike : pair.UsesVariablesAlike)
    (ho : o.IsReflexive) {types : Dict Ty} (htypes : Instantiates o types pair.typeFrom) :
    pair.roundTrip? o (pair.typeFrom.substitute types) =
      some (pair.typeFrom.substitute types) := by
  obtain ⟨r, taken, made, hbTakes, hbMakes, hlineUp⟩ := halike
  obtain ⟨taken', made', hfTakes, hfMakes, hbTakes', hbMakes', hproduct, hback⟩ :=
    hvalid.exists_types
  obtain rfl : taken = taken' := Option.some.inj (hbTakes.symm.trans hbTakes')
  obtain rfl : made = made' := Option.some.inj (hbMakes.symm.trans hbMakes')
  have hproduct := Ty.equivalent_symm hproduct
  obtain ⟨types', htypes', hsame⟩ := hlineUp.exists_instantiates hproduct htypes
  obtain ⟨found, hfound, hfoundEq⟩ := htypes.exists_assign? ho hlineUp.fromInOrder
  obtain ⟨found', hfound', hfoundEq'⟩ := htypes'.exists_assign? ho hlineUp.takenInOrder
  have hthere : pair.typeTo.substitute found = taken.substitute types' := by
    rw [Ty.substitute_eq_of_renamed hproduct hlineUp.takenNames hsame]
    refine Ty.substitute_congr fun v hv => ?_
    obtain ⟨w, hw, hcorresponds, -⟩ := hlineUp.forward v hv
    rw [show v.name = w.name from hcorresponds.name, hfoundEq w hw]
  have hmade : made.substitute found' = pair.typeFrom.substitute types := by
    refine Ty.substitute_eq_of_renamed hback hlineUp.madeNames fun v hv => ?_
    obtain ⟨w, hw, hname⟩ := hlineUp.backward v hv
    rw [← hname, hfoundEq' w hw]
    exact hsame w hw
  calc pair.roundTrip? o (pair.typeFrom.substitute types)
      = pair.backward.convertTy? o (pair.typeTo.substitute found) := by
        rw [roundTrip?, Rule.convertTy?_eq hfTakes hfMakes hfound]
        rfl
    _ = pair.backward.convertTy? o (taken.substitute types') := by rw [hthere]
    _ = some (made.substitute found') := Rule.convertTy?_eq hbTakes hbMakes hfound'
    _ = some (pair.typeFrom.substitute types) := by rw [hmade]

/-! ## Pairs of conversions by a method -/

/-- A conversion by a method, whose After-Template may name the variables of the
type in its own way. -/
def conversion (name : String) (beforeTy afterTy made : Ty) : Rule where
  name := name
  before := [⟨"before", beforeTy.vars, [⟨"a", beforeTy, none⟩], beforeTy,
    .expr (.placeholder "a")⟩]
  after := [⟨"after", afterTy.vars, [⟨"a", afterTy, none⟩], made,
    .expr (.call (.classRef "com.example.Adapter") ⟨"com.example.Adapter", "convert", true⟩
      [.placeholder "a"])⟩]
  descriptor := .standard

/-- The pair of a conversion and of another one back. -/
def ofConversions (fromTy afterTy toTy taken made : Ty) : MigrationPair where
  name := "Conversions"
  forward := conversion "com.example.Conversions.Forward" fromTy afterTy toTy
  backward := conversion "com.example.Conversions.Backward" taken taken made
  typeFrom := fromTy
  typeTo := toTy

/-- Variables without bounds may stand for any types of objects. -/
theorem instantiates_of_unbounded {types : Dict Ty} {declared : Ty}
    (h : ∀ v ∈ declared.vars, v.upper = none ∧ v.lower = none ∧ ∃ ty,
      types.get? v.name = some ty ∧ o.isConvertible ty (.plain Name.object) = true) :
    Instantiates o types declared := by
  intro v hv
  obtain ⟨hupper, hlower, ty, hget, hroot⟩ := h v hv
  refine ⟨ty, ⟨hget, fun _ hbound => ?_, fun _ hbound => ?_⟩, fun w hw => ?_, fun _ => hroot⟩
  · exact absurd (hupper.symm.trans hbound) nofun
  · exact absurd (hlower.symm.trans hbound) nofun
  · simp [TypeVar.mem_boundVars, hupper, hlower] at hw

/-- The type of texts. -/
def stringTy : Ty := .plain "java.lang.String"

/-- A source of one value. -/
def monoTy (value : Ty) : Ty := .named "reactor.core.publisher.Mono" [value]

/-- Another one. -/
def singleTy (value : Ty) : Ty := .named "io.reactivex.Single" [value]

/-- A type variable without bounds. -/
def unbounded (name : String) : Ty := .var name none none

/-- `Mono<T>` becomes `Single<T>`, and `Single<V>` becomes `Mono<V>`. -/
def monoSingle : MigrationPair :=
  ofConversions (monoTy (unbounded "T")) (monoTy (unbounded "T")) (singleTy (unbounded "T"))
    (singleTy (unbounded "V")) (monoTy (unbounded "V"))

theorem isValidated_monoSingle : monoSingle.IsValidated := rfl

theorem usesVariablesAlike_monoSingle : monoSingle.UsesVariablesAlike := by
  refine ⟨fun _ => "T", singleTy (unbounded "V"), monoTy (unbounded "V"), rfl, rfl, ?_⟩
  exact {
    forward := List.forall_mem_singleton.2
      ⟨_, List.mem_singleton_self _, ⟨rfl, rfl, rfl, rfl, rfl⟩, ⟨by simp, nofun⟩⟩
    backward := fun v hv => ⟨v, hv, rfl⟩
    takenNames := rfl
    madeNames := rfl
    rootBounds := List.forall_mem_singleton.2
      (List.forall_mem_singleton.2 fun _ => ⟨by simp, nofun⟩)
    fromInOrder := ⟨nofun, trivial⟩
    takenInOrder := ⟨nofun, trivial⟩ }

theorem instantiates_monoOfString :
    Instantiates Hierarchy.javaLang.oracle (Dict.ofList [("T", stringTy)])
      (monoTy (unbounded "T")) :=
  instantiates_of_unbounded
    (List.forall_mem_singleton.2 ⟨rfl, rfl, stringTy, by decide +kernel, by decide +kernel⟩)

theorem roundTrip_monoOfString : monoSingle.IsValidated ∧ monoSingle.UsesVariablesAlike ∧
    monoSingle.roundTrip? Hierarchy.javaLang.oracle (monoTy stringTy) =
      some (monoTy stringTy) := by
  have hsubstitute : monoSingle.typeFrom.substitute (Dict.ofList [("T", stringTy)]) =
      monoTy stringTy := by decide +kernel
  have hroundTrip := roundTrip_eq_some isValidated_monoSingle usesVariablesAlike_monoSingle
    (Hierarchy.isReflexive_oracle Hierarchy.javaLang) instantiates_monoOfString
  rw [hsubstitute] at hroundTrip
  exact ⟨isValidated_monoSingle, usesVariablesAlike_monoSingle, hroundTrip⟩

/-- The pair was validated, but of a type without variables that it converts, it
does not lead back to this type. -/
structure LosesType (pair : MigrationPair) (o : TypeOracle) (types : Dict Ty) : Prop where
  isValidated : pair.IsValidated
  instantiates : Instantiates o types pair.typeFrom
  closed : (pair.typeFrom.substitute types).mentionsVar = false
  lost : pair.roundTrip? o (pair.typeFrom.substitute types) ≠
    some (pair.typeFrom.substitute types)

/-- The type of boxed whole numbers. -/
def integerTy : Ty := .plain "java.lang.Integer"

/-- A key and its value. -/
def entryTy (key value : Ty) : Ty := .named "java.util.Map.Entry" [key, value]

/-- Two values. -/
def pairTy (first second : Ty) : Ty := .named "com.example.Pair" [first, second]

/-- `Entry<K, V>` becomes `Pair<K, V>`, but `Pair<K, V>` becomes `Entry<V, K>`. -/
def swapped : MigrationPair :=
  ofConversions (entryTy (unbounded "K") (unbounded "V"))
    (entryTy (unbounded "K") (unbounded "V")) (pairTy (unbounded "K") (unbounded "V"))
    (pairTy (unbounded "K") (unbounded "V")) (entryTy (unbounded "V") (unbounded "K"))

/-- `Mono<T>` becomes `Single<U>`, since the After-Template takes a `Mono<U>`. -/
def namedApart : MigrationPair :=
  ofConversions (monoTy (unbounded "T")) (monoTy (unbounded "U")) (singleTy (unbounded "U"))
    (singleTy (unbounded "V")) (monoTy (unbounded "V"))

/-- A type variable that stands for types comparable with themselves. -/
def comparable (name : String) : Ty :=
  .var name (some (.named "java.lang.Comparable" [unbounded name])) none

/-- `Mono<T extends Comparable<T>>` becomes `Single<T>`, and back. -/
def ofComparable : MigrationPair :=
  ofConversions (monoTy (comparable "T")) (monoTy (comparable "T")) (singleTy (comparable "T"))
    (singleTy (comparable "T")) (monoTy (comparable "T"))

/-- A class of comparable objects. -/
def versionTy : Ty := .plain "com.example.Version"

/-- Versions may be compared with versions. -/
def versions : Hierarchy :=
  (Hierarchy.javaLang.declare "java.lang.Comparable" ["T"] []).declare "com.example.Version" []
    [.named "java.lang.Comparable" [versionTy]]

/-- A type variable that stands for the root type and what is above it. -/
def aboveRoot (name : String) : Ty := .var name none (some (.plain Name.object))

/-- `Mono<T>` becomes `Single<T>`, and `Single<V super Object>` becomes `Mono<V>`. -/
def ofRoot : MigrationPair :=
  ofConversions (monoTy (unbounded "T")) (monoTy (unbounded "T")) (singleTy (unbounded "T"))
    (singleTy (aboveRoot "V")) (monoTy (aboveRoot "V"))

/-- **Validation alone does not tell the way back**: variables may be swapped, a
rule may make a type of variables that it does not take, the bounds of a variable
may mention it, and what is above the root type may be asked for. -/
theorem losesType_of_validated :
    swapped.LosesType Hierarchy.javaLang.oracle
        (Dict.ofList [("K", stringTy), ("V", integerTy)]) ∧
      namedApart.LosesType Hierarchy.javaLang.oracle (Dict.ofList [("T", stringTy)]) ∧
      ofComparable.LosesType versions.oracle (Dict.ofList [("T", versionTy)]) ∧
      ofRoot.LosesType Hierarchy.javaLang.oracle (Dict.ofList [("T", stringTy)]) := by
  refine ⟨?_, ?_, ?_, ?_⟩
  · refine ⟨rfl, ?_, by decide +kernel, by decide +kernel⟩
    refine instantiates_of_unbounded (List.forall_mem_cons.2 ⟨?_, List.forall_mem_singleton.2 ?_⟩)
    · exact ⟨rfl, rfl, stringTy, by decide +kernel, by decide +kernel⟩
    · exact ⟨rfl, rfl, integerTy, by decide +kernel, by decide +kernel⟩
  · exact ⟨rfl, instantiates_monoOfString, by decide +kernel,
      by decide +kernel⟩
  · refine ⟨rfl, ?_, by decide +kernel, by decide +kernel⟩
    refine List.forall_mem_singleton.2 ⟨versionTy, ⟨rfl, ?_, nofun⟩, ?_, nofun⟩
    · intro upper hupper
      obtain rfl := Option.some.inj hupper
      decide +kernel
    · exact List.forall_mem_singleton.2 ⟨versionTy, rfl⟩
  · exact ⟨rfl, instantiates_monoOfString, by decide +kernel,
      by decide +kernel⟩

end MigrationPair

end Codemod
