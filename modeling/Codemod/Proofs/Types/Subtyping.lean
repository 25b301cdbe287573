import Codemod.Proofs.Types.RawTypes
import Mathlib.Data.List.Nodup
/-!
# Views compose, and subtyping is a preorder

Where the declared supertypes are classes, nothing inherits from itself, at most one
path leads from one class to another, and the root class has no supertype
(`Hierarchy.IsOrdered`), the view of a view is a view of the type itself
(`Hierarchy.Finds.trans`): a supertype that is looked at before the one that leads to
the class in the middle leads nowhere, since it would be on a second path. Every class
is below the root class whatever is declared, so for that one this takes more: no
declared supertype may give it type arguments (`Hierarchy.HasPlainRootSupers`).

Subtyping compares views, so it is transitive where these compose. A class without
arguments is above all its instances; what stands above it mentions its parameters where
an instance has arguments (`Ty.Generalizes`), and agrees with what stands above the
instance if it mentions none.
-/

namespace Codemod.Hierarchy

variable {h : Hierarchy} {name target : String} {args : List Ty} {ty viewed : Ty}
  {answer : Option Ty}

/-! ## Orderly hierarchies -/

/-- The declared supertypes are classes and put the classes in order: nothing inherits
from itself, at most one path leads from one class to another, and the root class is at
the top. -/
structure IsOrdered (h : Hierarchy) : Prop where
  classSupers : h.HasClassSupers
  acyclic : h.IsAcyclic
  onePath : ∀ below above path path', below ≠ above → h.Inherits below path above →
    h.Inherits below path' above → path = path'
  root : h.declaredSupers Name.object = []

/-- No declared supertype gives the root class type arguments. -/
def HasPlainRootSupers (h : Hierarchy) : Prop :=
  ∀ name, ∀ sup ∈ h.declaredSupers name, sup.head = Name.object → sup = .plain Name.object

theorem IsOrdered.finds_iff (ho : h.IsOrdered) :
    h.Finds ty target answer ↔ h.asSuper ty target = answer :=
  Hierarchy.finds_iff ho.classSupers ho.acyclic

/-- Nothing but the root class is above the root class. -/
theorem IsOrdered.eq_of_inherits_object (ho : h.IsOrdered) {above : String} {path : List String}
    (hpath : h.Inherits Name.object path above) : above = Name.object := by
  cases hpath with
  | self => rfl
  | step hsup _ => exact absurd hsup (by simp [superNames, ho.root])

/-- A path between classes is what the search needs, unless it is for the root class. -/
theorem exists_path_of_finds (hclass : h.HasClassSupers) (hfinds : h.Finds ty target (some viewed))
    (htarget : target ≠ Name.object) : ∃ path, h.Inherits ty.head path target := by
  obtain ⟨path, above, hpath, rfl | ⟨hobject, -⟩⟩ := (isSome_iff_of_finds hclass hfinds).1 rfl
  · exact ⟨path, hpath⟩
  · exact absurd hobject htarget

/-! ## Views compose -/

theorem eq_of_finds_self {args : List Ty} (hfinds : h.Finds (.named name args) name answer) :
    answer = some (.named name args) := by
  cases hfinds with
  | here => rfl
  | above hname _ _ _ => exact absurd rfl hname
  | root hname _ => exact absurd rfl hname

/-- Where the root class has no type arguments, it is seen without any from below. -/
theorem eq_plain_of_finds_object (hclass : h.HasClassSupers) (hplain : h.HasPlainRootSupers)
    (hfinds : h.Finds ty Name.object (some viewed)) (hty : ty.head ≠ Name.object) :
    viewed = .plain Name.object := by
  generalize hanswer : some viewed = answer at hfinds
  generalize htarget : Name.object = target at hfinds
  induction hfinds with
  | @bound _ _ upper _ _ _ ih =>
    cases upper with
    | none => exact absurd rfl hty
    | some upper => exact ih hty hanswer htarget
  | here => exact absurd htarget.symm hty
  | @above name target args before after sup viewed' _ hsplit _ hsup _ ih =>
    subst htarget
    have hmem : sup ∈ h.supertypes name args := by simp [hsplit]
    obtain ⟨declared, hdeclared, rfl⟩ := List.mem_map.1 hmem
    obtain ⟨other, args', rfl⟩ := hclass name declared hdeclared
    by_cases hother : other = Name.object
    · have hroot := hplain name _ hdeclared hother
      rw [hroot] at hsup
      exact (Option.some.inj hanswer).trans (Option.some.inj (eq_of_finds_self hsup))
    · exact ih hother hanswer rfl
  | root =>
    subst htarget
    exact eq_plain_of_rootView hanswer.symm

/-- **The view of a view is a view**, for other classes than the root class. -/
theorem Finds.trans_of_ne (ho : h.IsOrdered) {middle : String} {between : Ty}
    (hfinds : h.Finds ty middle (some between)) (hviewed : h.Finds between target (some viewed))
    (hmiddle : middle ≠ target) (htarget : target ≠ Name.object) :
    h.Finds ty target (some viewed) := by
  generalize hanswer : some between = answer at hfinds
  induction hfinds with
  | bound _ ih => exact .bound (ih hmiddle hanswer)
  | here =>
    obtain rfl := Option.some.inj hanswer
    exact hviewed
  | @root name middle args _ _ =>
    -- The middle is the root class, and nothing is above that.
    obtain rfl := eq_plain_of_rootView hanswer.symm
    obtain ⟨path, hpath⟩ := exists_path_of_finds ho.classSupers hviewed htarget
    exact absurd (ho.eq_of_inherits_object hpath) htarget
  | @above name middle args before after sup between' hname hsplit hbefore hsup _ ih =>
    have hmem : ∀ ty ∈ before ++ sup :: after, ty.head ∈ h.superNames name :=
      fun ty hty => mem_superNames_of_mem_supertypes ho.classSupers (hsplit ▸ hty)
    have hfound := ih hmiddle hanswer
    obtain ⟨path, hpath⟩ := exists_path_of_finds ho.classSupers hfound htarget
    have hstep := Inherits.step (hmem sup (by simp)) hpath
    have hbelow : name ≠ target := by
      rintro rfl
      exact absurd (ho.acyclic _ _ hstep) (List.cons_ne_nil _ _)
    refine .above hbelow hsplit (fun other hother => ?_) hfound
    -- What is looked at before would be on another path, or have led to the middle.
    have htotal : h.Finds other target (h.asSuper other target) := ho.finds_iff.2 rfl
    cases hother' : h.asSuper other target with
    | none => exact hother' ▸ htotal
    | some viewed' =>
      rw [hother'] at htotal
      obtain ⟨path', hpath'⟩ := exists_path_of_finds ho.classSupers htotal htarget
      have hstep' := Inherits.step (hmem other (List.mem_append_left _ hother)) hpath'
      have hhead : other.head = sup.head :=
        (List.cons.inj (ho.onePath _ _ _ _ hbelow hstep' hstep)).1
      have hmet := (isSome_iff_of_finds ho.classSupers hsup).1 (hanswer ▸ rfl)
      rw [← hhead] at hmet
      exact absurd ((isSome_iff_of_finds ho.classSupers (hbefore other hother)).2 hmet) (by simp)

/-- What has a view that has a view as a class has one as the class itself. -/
theorem Finds.exists_trans (ho : h.IsOrdered) {middle : String} {args : List Ty}
    (hfinds : h.Finds ty middle (some (.named middle args)))
    (hviewed : h.Finds (.named middle args) target (some viewed)) :
    ∃ viewed', h.Finds ty target (some viewed') := by
  obtain ⟨path, above, hpath, hends⟩ := (isSome_iff_of_finds ho.classSupers hfinds).1 rfl
  obtain ⟨path', above', hpath', hends'⟩ := (isSome_iff_of_finds ho.classSupers hviewed).1 rfl
  have hmeets : ∃ path above, h.Inherits ty.head path above ∧ EndsAt target above := by
    rcases hends with rfl | ⟨rfl, hprimitive⟩
    · exact ⟨_, above', hpath.trans hpath', hends'⟩
    · -- Above the root class there is only the root class.
      obtain rfl := ho.eq_of_inherits_object hpath'
      have htarget : target = Name.object := hends'.elim Eq.symm And.left
      exact ⟨path, above, hpath, .inr ⟨htarget, hprimitive⟩⟩
  have htotal : h.Finds ty target (h.asSuper ty target) := ho.finds_iff.2 rfl
  obtain ⟨viewed', hviewed'⟩ := Option.isSome_iff_exists.1
    ((isSome_iff_of_finds ho.classSupers htotal).2 hmeets)
  exact ⟨viewed', hviewed' ▸ htotal⟩

/-- **The view of a view is a view.** For the root class this takes that it has no type
arguments. -/
theorem Finds.trans (ho : h.IsOrdered) (hplain : target = Name.object → h.HasPlainRootSupers)
    {middle : String} {args : List Ty} (hfinds : h.Finds ty middle (some (.named middle args)))
    (hviewed : h.Finds (.named middle args) target (some viewed)) :
    h.Finds ty target (some viewed) := by
  by_cases hmiddle : middle = target
  · subst hmiddle
    rw [eq_of_finds_self hviewed]
    exact hfinds
  by_cases htarget : target = Name.object
  · subst htarget
    obtain ⟨viewed', hfound⟩ := hfinds.exists_trans ho hviewed
    have hty : ty.head ≠ Name.object := by
      intro hty
      obtain ⟨path, hpath⟩ := exists_path_of_finds ho.classSupers hfinds hmiddle
      rw [hty] at hpath
      exact hmiddle (ho.eq_of_inherits_object hpath)
    have hroot := eq_plain_of_finds_object ho.classSupers (hplain rfl) hfound hty
    have hroot' := eq_plain_of_finds_object ho.classSupers (hplain rfl) hviewed hmiddle
    rwa [hroot', ← hroot]
  · exact hfinds.trans_of_ne ho hviewed hmiddle htarget

theorem asSuper_trans (ho : h.IsOrdered) (hplain : target = Name.object → h.HasPlainRootSupers)
    {middle : String} {between : Ty} (hbetween : h.asSuper ty middle = some between)
    (hviewed : h.asSuper between target = some viewed) : h.asSuper ty target = some viewed := by
  obtain ⟨args, rfl⟩ := asSuper_eq_named hbetween
  rw [← ho.finds_iff] at hbetween hviewed ⊢
  exact hbetween.trans ho hplain hviewed

/-! ## Subtyping -/

/-- Between types without variables, what stands above the upper one stands above every
view that puts another type below it. -/
theorem exists_asSuper_of_isSubtype (ho : h.IsOrdered) {middle : String} {args' : List Ty}
    (hagrees : (Ty.named middle args').equivalent (.named middle args) = true ∨ args = [])
    (hmiddle : (Ty.named middle args).mentionsVar = false) {above : List Ty}
    (habove : (Ty.named target above).mentionsVar = false)
    (hsub : h.isSubtype (.named middle args) (.named target above) = true) :
    ∃ viewed, h.asSuper (.named middle args') target = some viewed ∧
      (viewed.equivalent (.named target above) = true ∨ above = []) := by
  obtain ⟨viewed, hviewed, hequiv⟩ := isSubtype_named_iff.1 hsub
  rcases hagrees with hagrees | rfl
  · rw [Ty.eq_of_equivalent hagrees hmiddle]
    exact ⟨viewed, hviewed, hequiv⟩
  · obtain ⟨viewed', hviewed', hcovers⟩ :=
      covers_asSuper ho.classSupers ho.acyclic hviewed args'
    refine ⟨viewed', hviewed', ?_⟩
    by_cases hraw : above = []
    · exact .inr hraw
    · rw [Ty.eq_of_equivalent (hequiv.resolve_right hraw) habove] at hcovers
      rw [hcovers.eq_of_mentionsVar hraw habove]
      exact .inl (Ty.equivalent_refl _)

theorem isSubtype_trans (ho : h.IsOrdered) {a b c : Ty} (hb : b.mentionsVar = false)
    (hc : c.mentionsVar = false)
    (hplain : c.head = Name.object → c.args ≠ [] → h.HasPlainRootSupers)
    (hab : h.isSubtype a b = true) (hbc : h.isSubtype b c = true) : h.isSubtype a c = true := by
  match b, c with
  | .var .., _ => exact absurd hb (by simp [Ty.mentionsVar])
  | _, .var .. => exact absurd hc (by simp [Ty.mentionsVar])
  | .named middle args, .named target above =>
    obtain ⟨between, hbetween, hagrees⟩ := isSubtype_named_iff.1 hab
    obtain ⟨args', rfl⟩ := asSuper_eq_named hbetween
    obtain ⟨viewed, hviewed, hequiv⟩ := exists_asSuper_of_isSubtype ho hagrees hb hc hbc
    by_cases hraw : above = []
    · -- Any view will do.
      rw [← ho.finds_iff] at hbetween hviewed
      obtain ⟨viewed', hviewed'⟩ := hbetween.exists_trans ho hviewed
      exact isSubtype_named_iff.2 ⟨viewed', ho.finds_iff.1 hviewed', .inr hraw⟩
    · exact isSubtype_named_iff.2
        ⟨viewed, asSuper_trans ho (fun hroot => hplain hroot hraw) hbetween hviewed, hequiv⟩

/-- **Views compose, and subtyping is a preorder.** In an orderly hierarchy the search
for a view ends for every type, with the answer that the hierarchy gives; the view of a
view is a view of the type; and subtyping is reflexive on all types, and transitive where
the upper two mention no variables. For views as the root class, and for subtypes of it
with type arguments, no declared supertype may give the root class type arguments. -/
theorem preorder_of_isOrdered (ho : h.IsOrdered) :
    (∀ ty target answer, h.Finds ty target answer ↔ h.asSuper ty target = answer) ∧
    (∀ ty middle target between viewed, (target = Name.object → h.HasPlainRootSupers) →
      h.asSuper ty middle = some between → h.asSuper between target = some viewed →
      h.asSuper ty target = some viewed) ∧
    (∀ ty, h.isSubtype ty ty = true) ∧
    (∀ a b c, b.mentionsVar = false → c.mentionsVar = false →
      (c.head = Name.object → c.args ≠ [] → h.HasPlainRootSupers) →
      h.isSubtype a b = true → h.isSubtype b c = true → h.isSubtype a c = true) := by
  refine ⟨fun ty target answer => ho.finds_iff,
    fun ty middle target between viewed hplain => asSuper_trans ho hplain,
    fun ty => isSubtype_of_equivalent (Ty.equivalent_refl ty),
    fun a b c hb hc hplain => isSubtype_trans ho hb hc hplain⟩

/-! ## Which hierarchies are orderly -/

/-- The paths of at most so many steps that begin at a class, with their ends. -/
def routes (h : Hierarchy) : Nat → String → List (String × List String)
  | 0, name => [(name, [])]
  | steps + 1, name => (name, []) :: (h.superNames name).flatMap fun sup =>
      (routes h steps sup).map fun route => (route.1, sup :: route.2)

/-- All short paths are among the routes. -/
theorem Inherits.mem_routes {above : String} {path : List String}
    (hpath : h.Inherits name path above) {steps : Nat} (hlength : path.length ≤ steps) :
    (above, path) ∈ h.routes steps name := by
  induction hpath generalizing steps with
  | self => cases steps <;> exact List.mem_cons_self
  | @step _ sup _ _ hsup _ ih =>
    obtain ⟨steps, rfl⟩ : ∃ n, steps = n + 1 := Nat.exists_eq_add_one.2 (by simp at hlength; omega)
    refine List.mem_cons_of_mem _ (List.mem_flatMap.2 ⟨sup, hsup, List.mem_map.2 ⟨_, ih ?_, rfl⟩⟩)
    simpa using hlength

/-- The beginning of a path is a path. -/
theorem Inherits.exists_take {above : String} {path : List String}
    (hpath : h.Inherits name path above) (steps : Nat) :
    ∃ middle, h.Inherits name (path.take steps) middle := by
  induction hpath generalizing steps with
  | self => exact ⟨_, by rw [List.take_nil]; exact .self⟩
  | step hsup _ ih =>
    cases steps with
    | zero => exact ⟨_, .self⟩
    | succ steps =>
      obtain ⟨middle, hmiddle⟩ := ih steps
      exact ⟨middle, .step hsup hmiddle⟩

/-- From each declared class the paths are shorter than a bound, and lead to classes of
their own. -/
def isOrderly (h : Hierarchy) : Bool :=
  h.classes.all (fun entry => entry.2.supers.all (·.name?.isSome)) &&
    (h.declaredSupers Name.object).isEmpty &&
    h.classes.all fun entry =>
      let found := h.routes (h.classes.length + 1) entry.1
      found.all (fun route => route.2.length ≤ h.classes.length) &&
        decide (found.map Prod.fst).Nodup

/-- A longer path would begin with one that is too long. -/
theorem Inherits.length_le_of_routes
    (hroutes : ∀ entry ∈ h.classes, ∀ route ∈ h.routes (h.classes.length + 1) entry.1,
      route.2.length ≤ h.classes.length)
    {above : String} {path : List String} (hpath : h.Inherits name path above) :
    path.length ≤ h.classes.length := by
  cases hpath with
  | self => exact Nat.zero_le _
  | @step _ sup _ path hsup hrest =>
    obtain ⟨entry, hentry, rfl⟩ := List.mem_map.1 (mem_classes_of_mem_superNames hsup)
    obtain ⟨middle, hmiddle⟩ := (Inherits.step hsup hrest).exists_take (h.classes.length + 1)
    have htake := hroutes entry hentry _ (hmiddle.mem_routes (List.length_take_le _ _))
    rw [List.length_take] at htake
    omega

/-- **A hierarchy that passes the check is orderly.** -/
theorem isOrdered_of_isOrderly (hcheck : h.isOrderly = true) : h.IsOrdered := by
  simp only [isOrderly, Bool.and_eq_true, List.all_eq_true, List.isEmpty_iff, decide_eq_true_eq]
    at hcheck
  obtain ⟨⟨hclass, hroot⟩, hroutes⟩ := hcheck
  have hunique {name above sup : String} {path path' : List String}
      (hpath : h.Inherits name path above) (hpath' : h.Inherits name path' above)
      (hsup : sup ∈ h.superNames name) : path = path' := by
    obtain ⟨entry, hentry, rfl⟩ := List.mem_map.1 (mem_classes_of_mem_superNames hsup)
    have hshort := fun entry hentry => (hroutes entry hentry).1
    have hmem := hpath.mem_routes (Nat.le_succ_of_le (hpath.length_le_of_routes hshort))
    have hmem' := hpath'.mem_routes (Nat.le_succ_of_le (hpath'.length_le_of_routes hshort))
    exact congrArg Prod.snd (List.inj_on_of_nodup_map (hroutes entry hentry).2 hmem hmem' rfl)
  refine ⟨fun name sup hsup => ?_, fun name path hpath => ?_,
    fun below above path path' hne hpath hpath' => ?_, hroot⟩
  · obtain ⟨info, hinfo, hmem⟩ := exists_mem_classes_of_mem_declaredSupers hsup
    have hnamed := hclass _ hinfo sup hmem
    cases sup with
    | named other args => exact ⟨other, args, rfl⟩
    | var => exact absurd hnamed (by simp [Ty.name?])
  · cases hpath with
    | self => rfl
    | step hsup hrest => exact hunique (.step hsup hrest) .self hsup
  · cases hpath with
    | self => exact absurd rfl hne
    | step hsup hrest => exact hunique (.step hsup hrest) hpath' hsup

theorem hasPlainRootSupers_of_all (hcheck : h.classes.all (fun entry => entry.2.supers.all
    fun sup => sup.head != Name.object || sup == .plain Name.object) = true) :
    h.HasPlainRootSupers := by
  intro name sup hsup hroot
  obtain ⟨info, hinfo, hmem⟩ := exists_mem_classes_of_mem_declaredSupers hsup
  simp only [List.all_eq_true, Bool.or_eq_true, bne_iff_ne, beq_iff_eq] at hcheck
  exact (hcheck _ hinfo sup hmem).resolve_left (absurd hroot)

/-! ## Crates of pairs -/

/-- A pair of two values of one type. -/
def pairOf (ty : Ty) : Ty := .named "com.example.Pair" [ty, ty]

/-- A crate is a store, and a store is a bag: of pairs each time, so that the argument
doubles with every step. -/
def crates : Hierarchy :=
  ((javaLang.declare "com.example.Bag" ["G"] [.plain Name.object]).declare
    "com.example.Store" ["F"] [.named "com.example.Bag" [pairOf (.var "F" none none)]]).declare
    "com.example.Crate" ["E"]
    [.plain "com.example.Tagged", .named "com.example.Store" [pairOf (.var "E" none none)]]

/-- A crate of strings is a bag of pairs of pairs, and an object as every bag is. As every
store is a bag, so is every crate. -/
theorem preorder_crates :
    crates.IsOrdered ∧ crates.HasPlainRootSupers ∧
    (crates.asSuper (.named "com.example.Crate" [.plain "java.lang.String"]) "com.example.Bag" =
        some (.named "com.example.Bag" [pairOf (pairOf (.plain "java.lang.String"))]) ∧
      crates.asSuper (.named "com.example.Bag" [pairOf (pairOf (.plain "java.lang.String"))])
        Name.object = some (.plain Name.object) ∧
      crates.asSuper (.named "com.example.Crate" [.plain "java.lang.String"]) Name.object =
        some (.plain Name.object)) ∧
    crates.isSubtype (.named "com.example.Crate" [.plain "java.lang.String"])
      (.plain "com.example.Store") = true ∧
    crates.isSubtype (.plain "com.example.Store") (.plain "com.example.Bag") = true ∧
    crates.isSubtype (.named "com.example.Crate" [.plain "java.lang.String"])
      (.plain "com.example.Bag") = true := by
  have hordered : crates.IsOrdered := isOrdered_of_isOrderly (by decide +kernel)
  have hplain : crates.HasPlainRootSupers := hasPlainRootSupers_of_all (by decide +kernel)
  obtain ⟨-, htrans, -, hsubtype⟩ := preorder_of_isOrdered hordered
  have hbag : crates.asSuper (.named "com.example.Crate" [.plain "java.lang.String"])
      "com.example.Bag" =
        some (.named "com.example.Bag" [pairOf (pairOf (.plain "java.lang.String"))]) := by
    decide +kernel
  have hobject : crates.asSuper
      (.named "com.example.Bag" [pairOf (pairOf (.plain "java.lang.String"))]) Name.object =
        some (.plain Name.object) := by
    decide +kernel
  have hstore : crates.isSubtype (.named "com.example.Crate" [.plain "java.lang.String"])
      (.plain "com.example.Store") = true := by
    decide +kernel
  have hraw : crates.isSubtype (.plain "com.example.Store") (.plain "com.example.Bag") = true := by
    decide +kernel
  refine ⟨hordered, hplain, ⟨hbag, hobject, ?_⟩, hstore, hraw, ?_⟩
  · exact htrans _ _ _ _ _ (fun _ => hplain) hbag hobject
  · exact hsubtype _ _ _ (by decide) (by decide) (fun _ _ => hplain) hstore hraw

/-- An item is tagged and based on something, and what is tagged is an object of
strings. -/
def taggedItems : Hierarchy :=
  ((javaLang.declare "com.example.Tagged" []
    [.named Name.object [.plain "java.lang.String"]]).declare "com.example.Base" [] []).declare
    "com.example.Item" [] [.plain "com.example.Tagged", .plain "com.example.Base"]

/-- **Where a declared supertype gives the root class type arguments, views do not
compose**: what an item is based on is an object, and the item is an object of strings. -/
theorem exists_views_not_composed :
    taggedItems.IsOrdered ∧
    taggedItems.asSuper (.plain "com.example.Item") "com.example.Base" =
      some (.plain "com.example.Base") ∧
    taggedItems.asSuper (.plain "com.example.Base") Name.object = some (.plain Name.object) ∧
    taggedItems.asSuper (.plain "com.example.Item") Name.object ≠ some (.plain Name.object) := by
  refine ⟨isOrdered_of_isOrderly ?_, ?_, ?_, ?_⟩ <;> decide +kernel

/-- A part is an item whose base is looked up before its tag. -/
def basedParts : Hierarchy :=
  taggedItems.declare "com.example.Part" []
    [.plain "com.example.Base", .plain "com.example.Tagged"]

/-- **Nor is subtyping transitive there**: a part is tagged, what is tagged is an object
of strings, and yet a part is only an object, since its base is. -/
theorem exists_subtypes_not_composed :
    basedParts.IsOrdered ∧
    basedParts.isSubtype (.plain "com.example.Part") (.plain "com.example.Tagged") = true ∧
    basedParts.isSubtype (.plain "com.example.Tagged")
      (.named Name.object [.plain "java.lang.String"]) = true ∧
    basedParts.isSubtype (.plain "com.example.Part")
      (.named Name.object [.plain "java.lang.String"]) = false := by
  refine ⟨isOrdered_of_isOrderly ?_, ?_, ?_, ?_⟩ <;> decide +kernel

end Codemod.Hierarchy
