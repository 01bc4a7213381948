import JvmClass.Proofs.Hierarchy.Absorbing

namespace JvmClass

/-!
# The common superclass is the least one

Whatever is a supertype of two names is one of their common superclass, too, as
long as the chain of superclasses of each class ends at the root.  An interface
ends the chain of no class: nothing but the root is above it.
-/

namespace Hierarchy

/-- The superclasses of a class lead to the root, or the class is an interface. -/
def GroundedClass (hierarchy : Hierarchy) (name : String) : Prop :=
  Relation.ReflTransGen hierarchy.Extends name objectName ∨
    name ≠ objectName ∧
      ∃ info, hierarchy.lookup name = some info ∧ info.isInterface = true

/-- The class of a name, or the class that an array of this name holds in the end, is grounded. -/
inductive Grounded (hierarchy : Hierarchy) : List Char → Prop where
  | aClass {name : List Char} :
      (∀ rest, name ≠ '[' :: rest) →
      hierarchy.GroundedClass (String.ofList name) →
      Grounded hierarchy name
  | primitives {element : List Char} :
      ClassName.component? element = none →
      Grounded hierarchy ('[' :: element)
  | array {element component : List Char} :
      ClassName.component? element = some component →
      Grounded hierarchy component →
      Grounded hierarchy ('[' :: element)

variable {hierarchy : Hierarchy}

theorem groundedClass_objectName : hierarchy.GroundedClass objectName :=
  .inl .refl

theorem grounded_objectName : hierarchy.Grounded objectName.toList :=
  .aClass objectName_ne_array (by simpa using groundedClass_objectName)

/-- An array of what is grounded is grounded. -/
theorem Grounded.arrayOf
    {component : List Char}
    (grounded : hierarchy.Grounded component) :
    hierarchy.Grounded (ClassName.arrayOf component) := by
  obtain ⟨rest, shape, held⟩ := arrayOf_eq_cons component
  exact shape ▸ .array held grounded

/-- What a grounded array holds is grounded. -/
theorem Grounded.component
    {element component : List Char}
    (grounded : hierarchy.Grounded ('[' :: element))
    (held : ClassName.component? element = some component) :
    hierarchy.Grounded component := by
  cases grounded with
  | aClass noArray => exact absurd rfl (noArray element)
  | primitives missing => simp [held] at missing
  | array otherHeld grounded =>
      rw [held] at otherHeld
      cases otherHeld
      exact grounded

/-! ## Chains that end at the root -/

/-- No interface names a superclass. -/
theorem eq_of_reaches_interface
    {name super : String}
    {info : ClassInfo}
    (found : hierarchy.lookup name = some info)
    (isInterface : info.isInterface = true)
    (reached : Relation.ReflTransGen hierarchy.Extends name super) :
    super = name := by
  rcases reached.cases_head with same | ⟨parent, ⟨_, other, otherFound, noInterface, _⟩, _⟩
  · exact same.symm
  · rw [found] at otherFound
    cases otherFound
    simp [isInterface] at noInterface

/-- A class whose superclasses lead to the root is not above its own superclass. -/
theorem not_reaches_of_extends
    {child parent : String}
    (named : hierarchy.Extends child parent)
    (grounded : Relation.ReflTransGen hierarchy.Extends child objectName) :
    ¬ Relation.ReflTransGen hierarchy.Extends parent child := by
  intro back
  -- The way up from the superclass never leaves the circle, so the root is in it.
  have circular
      {name : String}
      (reached : Relation.ReflTransGen hierarchy.Extends child name) :
      Relation.ReflTransGen hierarchy.Extends name child := by
    induction reached with
    | refl => exact .refl
    | tail _ further inductionHypothesis =>
        rcases inductionHypothesis.cases_head with rfl | ⟨next, step, onward⟩
        · exact extends_unique named further ▸ back
        · exact extends_unique step further ▸ onward
  exact named.1 (eq_objectName_of_reaches (circular grounded))

/-- A walk up to the root passes every superclass. -/
theorem walk_of_reaches
    {passed : List String}
    {current : String}
    {steps : Nat}
    (reached : Relation.ReflTransGen hierarchy.Extends current objectName)
    (distinct : passed.Nodup)
    (known : ∀ name ∈ passed, (hierarchy.lookup name).isSome)
    (ahead : ∀ name ∈ passed, ¬ Relation.ReflTransGen hierarchy.Extends current name)
    (enough : hierarchy.size < passed.length + steps) :
    ∃ rest,
      hierarchy.walk passed current steps = .chain (passed.reverse ++ rest) true ∧
        ∀ name, Relation.ReflTransGen hierarchy.Extends current name → name ∈ rest := by
  induction reached using Relation.ReflTransGen.head_induction_on generalizing passed steps with
  | refl =>
      obtain ⟨steps, rfl⟩ : ∃ fewer, steps = fewer + 1 :=
        ⟨steps - 1, by have few := length_le_size distinct known; omega⟩
      refine ⟨[objectName], by simp [walk], fun name reached => ?_⟩
      rw [eq_objectName_of_reaches reached]
      exact List.mem_singleton_self _
  | @head current parent named grounded inductionHypothesis =>
      obtain ⟨steps, rfl⟩ : ∃ fewer, steps = fewer + 1 :=
        ⟨steps - 1, by have few := length_le_size distinct known; omega⟩
      have fresh : ∀ name ∈ current :: passed,
          ¬ Relation.ReflTransGen hierarchy.Extends parent name := by
        intro name member
        rcases List.mem_cons.mp member with rfl | earlier
        · exact not_reaches_of_extends named (.head named grounded)
        · exact fun reached => ahead name earlier (.head named reached)
      obtain ⟨notRoot, info, found, noInterface, parentNamed⟩ := named
      obtain ⟨rest, walked, complete⟩ :=
        @inductionHypothesis (current :: passed) steps
          (List.nodup_cons.mpr ⟨fun again => ahead current again .refl, distinct⟩)
          (by simpa [found] using known) fresh (by rw [List.length_cons]; omega)
      have unpassed : (current :: passed).contains parent = false := by
        simpa using fun again => fresh parent again .refl
      refine ⟨current :: rest, ?_, fun name reached => ?_⟩
      · simp only [walk, notRoot, if_false, found, noInterface, Bool.false_eq_true, parentNamed,
          unpassed, walked]
        simp
      · rcases reached.cases_head with rfl | ⟨next, step, onward⟩
        · exact List.mem_cons_self
        · have same : next = parent :=
            extends_unique step ⟨notRoot, info, found, noInterface, parentNamed⟩
          exact List.mem_cons_of_mem _ (complete name (same ▸ onward))

/-- The chain of a class whose superclasses lead to the root holds them all. -/
theorem ancestry_of_reaches
    {name : String}
    (grounded : Relation.ReflTransGen hierarchy.Extends name objectName) :
    ∃ names,
      hierarchy.ancestry name = .chain names true ∧
        ∀ super, Relation.ReflTransGen hierarchy.Extends name super → super ∈ names :=
  walk_of_reaches grounded .nil (by simp) (by simp) (by simp)

/-- The walk up from an interface ends there. -/
theorem ancestry_of_interface
    {name : String}
    {info : ClassInfo}
    (notRoot : name ≠ objectName)
    (found : hierarchy.lookup name = some info)
    (isInterface : info.isInterface = true) :
    hierarchy.ancestry name = .interfaceMet := by
  simp [ancestry, walk, notRoot, found, isInterface]

/-! ## Classes -/

/-- What two classes have in common is the lowest class on both chains. -/
theorem exists_commonClass?_of_reaches
    {left right : String}
    (leftGrounded : Relation.ReflTransGen hierarchy.Extends left objectName)
    (rightGrounded : Relation.ReflTransGen hierarchy.Extends right objectName) :
    ∃ common,
      hierarchy.commonClass? left right = some common ∧
        Relation.ReflTransGen hierarchy.Extends common objectName ∧
          ∀ super,
            Relation.ReflTransGen hierarchy.Extends left super →
              Relation.ReflTransGen hierarchy.Extends right super →
                Relation.ReflTransGen hierarchy.Extends common super := by
  obtain ⟨ancestors, leftChain, leftComplete⟩ := ancestry_of_reaches leftGrounded
  obtain ⟨names, rightChain, rightComplete⟩ := ancestry_of_reaches rightGrounded
  have shared : (names.find? ancestors.contains).isSome := by
    rw [List.find?_isSome]
    exact ⟨objectName, rightComplete _ rightGrounded, by simpa using leftComplete _ leftGrounded⟩
  obtain ⟨common, found⟩ := Option.isSome_iff_exists.mp shared
  have onRight : Relation.ReflTransGen hierarchy.Extends right common :=
    reaches_of_ancestry rightChain (List.mem_of_find?_eq_some found)
  have above (super : String)
      (leftReached : Relation.ReflTransGen hierarchy.Extends left super)
      (rightReached : Relation.ReflTransGen hierarchy.Extends right super) :
      Relation.ReflTransGen hierarchy.Extends common super := by
    rcases onRight.total_of_right_unique extends_unique rightReached with up | down
    · exact up
    · obtain ⟨front, rest, shape, behind⟩ :=
        ancestry_of_mem rightChain (rightComplete super rightReached)
      have superGrounded : Relation.ReflTransGen hierarchy.Extends super objectName := by
        rcases rightReached.total_of_right_unique extends_unique rightGrounded with up | rooted
        · exact up
        · exact eq_objectName_of_reaches rooted ▸ .refl
      obtain ⟨_, superChain, superComplete⟩ := ancestry_of_reaches superGrounded
      rw [behind] at superChain
      cases superChain
      have distinct := (nodup_of_ancestry rightChain).1
      rw [shape, List.nodup_append] at distinct
      rw [shape, List.find?_append, Option.or_eq_some_iff] at found
      rcases found with ahead | ⟨_, here⟩
      · -- The class would lie ahead of `super` and above it.
        exact absurd rfl
          (distinct.2.2 common (List.mem_of_find?_eq_some ahead) common (superComplete common down))
      · rw [List.find?_cons_of_pos (by simpa using leftComplete super leftReached)] at here
        cases here
        exact .refl
  refine ⟨common, ?_, above objectName leftGrounded rightGrounded, above⟩
  simp only [commonClass?, leftChain, rightChain, found]

/-- A class that is above two grounded classes is the root or above what they have in common. -/
theorem exists_commonClass?
    {left right : String}
    (different : left ≠ right)
    (leftGrounded : hierarchy.GroundedClass left)
    (rightGrounded : hierarchy.GroundedClass right) :
    ∃ common,
      hierarchy.commonClass? left right = some common ∧
        hierarchy.GroundedClass common ∧
          ∀ super,
            Relation.ReflTransGen hierarchy.Extends left super →
              Relation.ReflTransGen hierarchy.Extends right super →
                super = objectName ∨ Relation.ReflTransGen hierarchy.Extends common super := by
  -- An interface is above itself only, so nothing but the root is above both.
  have apart {name other : String} {info : ClassInfo}
      (different : name ≠ other)
      (notRoot : name ≠ objectName)
      (found : hierarchy.lookup name = some info)
      (isInterface : info.isInterface = true)
      (grounded : hierarchy.GroundedClass other) :
      ¬ Relation.ReflTransGen hierarchy.Extends other name := by
    intro reached
    rcases grounded with rooted | ⟨_, _, otherFound, otherIs⟩
    · rcases reached.total_of_right_unique extends_unique rooted with up | down
      · exact notRoot (eq_of_reaches_interface found isInterface up).symm
      · exact notRoot (eq_objectName_of_reaches down)
    · exact different (eq_of_reaches_interface otherFound otherIs reached)
  rcases leftGrounded with leftRooted | ⟨leftNotRoot, info, found, isInterface⟩
  · rcases rightGrounded with rightRooted | ⟨rightNotRoot, info, found, isInterface⟩
    · obtain ⟨common, commonFound, rooted, least⟩ :=
        exists_commonClass?_of_reaches leftRooted rightRooted
      exact ⟨common, commonFound, .inl rooted, fun super onLeft onRight =>
        .inr (least super onLeft onRight)⟩
    · refine ⟨objectName, ?_, groundedClass_objectName, fun super onLeft onRight => ?_⟩
      · obtain ⟨names, chained, _⟩ := ancestry_of_reaches leftRooted
        simp [commonClass?, chained, ancestry_of_interface rightNotRoot found isInterface]
      · obtain rfl := eq_of_reaches_interface found isInterface onRight
        exact absurd onLeft (apart different.symm rightNotRoot found isInterface (.inl leftRooted))
  · refine ⟨objectName, ?_, groundedClass_objectName, fun super onLeft onRight => ?_⟩
    · simp [commonClass?, ancestry_of_interface leftNotRoot found isInterface]
    · obtain rfl := eq_of_reaches_interface found isInterface onLeft
      exact absurd onRight (apart different leftNotRoot found isInterface rightGrounded)

/-! ## Supertypes -/

/-- Nothing is above the root. -/
theorem Supertype.of_root
    {super : List Char}
    (below : hierarchy.Supertype objectName.toList super) :
    super = objectName.toList := by
  generalize shape : objectName.toList = name at below
  cases below with
  | refl => rfl
  | root => exact shape
  | superclass named => exact absurd (by simp [← shape]) named.1
  | component => exact absurd shape (objectName_ne_array _)

/-- Above a class are the root and the classes that its superclasses lead to. -/
theorem Supertype.of_class
    {name super : List Char}
    (classes : hierarchy.RelatesClasses)
    (noArray : ∀ rest, name ≠ '[' :: rest)
    (below : hierarchy.Supertype name super) :
    super = objectName.toList ∨
      ∃ wider,
        super = wider.toList ∧ Relation.ReflTransGen hierarchy.Extends (String.ofList name) wider := by
  induction below with
  | refl name => exact .inr ⟨String.ofList name, by simp, .refl⟩
  | root => exact .inl rfl
  | superclass named _ inductionHypothesis =>
      rcases inductionHypothesis (classes _ _ named).2 with isRoot | ⟨wider, shape, reached⟩
      · exact .inl isRoot
      · rw [String.ofList_toList] at reached
        exact .inr ⟨wider, shape, .head named reached⟩
  | component => exact absurd rfl (noArray _)

/-- Above an array are the root, the array itself and arrays of what is above its component. -/
theorem Supertype.of_array
    {element super : List Char}
    (classes : hierarchy.RelatesClasses)
    (below : hierarchy.Supertype ('[' :: element) super) :
    super = objectName.toList ∨ super = '[' :: element ∨
      ∃ rest component wider,
        super = '[' :: rest ∧ ClassName.component? element = some component ∧
          ClassName.component? rest = some wider ∧ hierarchy.Supertype component wider := by
  cases below with
  | refl => exact .inr (.inl rfl)
  | root => exact .inl rfl
  | superclass named => exact absurd (by simp) ((classes _ _ named).1 element)
  | component held widerHeld above =>
      exact .inr (.inr ⟨_, _, _, rfl, held, widerHeld, above⟩)

/-- What is above a supertype is a supertype. -/
theorem Supertype.trans
    {name middle super : List Char}
    (classes : hierarchy.RelatesClasses)
    (below : hierarchy.Supertype name middle)
    (above : hierarchy.Supertype middle super) :
    hierarchy.Supertype name super := by
  induction below generalizing super with
  | refl => exact above
  | root => exact above.of_root ▸ .root _
  | superclass named _ inductionHypothesis => exact .superclass named (inductionHypothesis above)
  | @component left right leftComponent rightComponent leftHeld rightHeld inner inductionHypothesis =>
      rcases above.of_array classes with rfl | rfl | ⟨rest, component, wider, rfl, held, widerHeld, onward⟩
      · exact .root _
      · exact .component leftHeld rightHeld inner
      · rw [rightHeld] at held
        cases held
        exact .component leftHeld widerHeld (inductionHypothesis onward)

/-- Only the root is above what is above a class and above an array. -/
theorem Supertype.root_of_mixed
    {name element super : List Char}
    (classes : hierarchy.RelatesClasses)
    (noArray : ∀ rest, name ≠ '[' :: rest)
    (classBelow : hierarchy.Supertype name super)
    (arrayBelow : hierarchy.Supertype ('[' :: element) super) :
    hierarchy.Supertype objectName.toList super := by
  rcases classBelow.of_class classes noArray with rfl | ⟨wider, rfl, reached⟩
  · exact .refl _
  · have plain := classes.noArray_of_reaches (by simpa using noArray) reached
    rcases arrayBelow.of_array classes with isRoot | array | ⟨rest, _, _, array, _⟩
    · exact isRoot ▸ .refl _
    · exact absurd array (plain element)
    · exact absurd array (plain rest)

/-! ## Names -/

/-- A name is the common superclass of two others and the least supertype of both. -/
structure LeastCommon
    (hierarchy : Hierarchy)
    (left right common : List Char) : Prop where
  found : hierarchy.commonName? left right = some common
  grounded : hierarchy.Grounded common
  least :
    ∀ super,
      hierarchy.Supertype left super →
        hierarchy.Supertype right super → hierarchy.Supertype common super

theorem leastCommon_self
    {name : List Char}
    (grounded : hierarchy.Grounded name) :
    hierarchy.LeastCommon name name name :=
  ⟨commonName?_self name, grounded, fun _ below _ => below⟩

/-- Two different classes have a least common superclass. -/
theorem exists_leastCommon_of_classes
    {left right : List Char}
    (classes : hierarchy.RelatesClasses)
    (different : left ≠ right)
    (leftNoArray : ∀ rest, left ≠ '[' :: rest)
    (rightNoArray : ∀ rest, right ≠ '[' :: rest)
    (leftGrounded : hierarchy.GroundedClass (String.ofList left))
    (rightGrounded : hierarchy.GroundedClass (String.ofList right)) :
    ∃ common, hierarchy.LeastCommon left right common := by
  obtain ⟨common, found, grounded, least⟩ :=
    exists_commonClass? (fun alike => different (String.ofList_injective alike))
      leftGrounded rightGrounded
  have noArray : ∀ rest, common.toList ≠ '[' :: rest := by
    rcases mem_of_commonClass? found with rfl | ⟨_, _, _, _, chained, member, _⟩
    · exact objectName_ne_array
    · exact classes.noArray_of_mem (by simpa using leftNoArray) chained member
  refine ⟨common.toList, ?_, .aClass noArray (by simpa using grounded), ?_⟩
  · rw [commonName?_classes different leftNoArray rightNoArray, found, Option.map_some]
  · intro super onLeft onRight
    rcases onLeft.of_class classes leftNoArray with rfl | ⟨wider, rfl, leftReached⟩
    · exact .root _
    · rcases onRight.of_class classes rightNoArray with isRoot | ⟨other, alike, rightReached⟩
      · exact isRoot ▸ .root _
      · obtain rfl := String.toList_injective alike
        rcases least wider leftReached rightReached with rfl | reached
        · exact .root _
        · exact .of_reaches reached

/-- Arrays of primitive values have only the root in common with other arrays. -/
theorem leastCommon_of_primitives
    {left right : List Char}
    (classes : hierarchy.RelatesClasses)
    (different : left ≠ right)
    (primitive : ClassName.component? left = none ∨ ClassName.component? right = none) :
    hierarchy.LeastCommon ('[' :: left) ('[' :: right) objectName.toList := by
  refine ⟨commonName?_primitives different primitive, grounded_objectName, ?_⟩
  intro super onLeft onRight
  rcases onLeft.of_array classes with rfl | rfl | ⟨rest, _, _, rfl, leftHeld, held, _⟩
  · exact .refl _
  · rcases onRight.of_array classes with isRoot | same | ⟨_, _, _, shape, rightHeld, held, _⟩
    · exact isRoot ▸ .refl _
    · exact absurd (List.cons.inj same).2 different
    · obtain ⟨_, rfl⟩ := List.cons.inj shape
      simp [held, rightHeld] at primitive
  · rcases onRight.of_array classes with isRoot | same | ⟨_, _, _, _, rightHeld, _⟩
    · exact isRoot ▸ .refl _
    · obtain ⟨_, rfl⟩ := List.cons.inj same
      simp [leftHeld, held] at primitive
    · simp [leftHeld, rightHeld] at primitive

/-- Arrays have an array of what their components have in common. -/
theorem LeastCommon.arrayOf
    {left right leftComponent rightComponent common : List Char}
    (classes : hierarchy.RelatesClasses)
    (different : left ≠ right)
    (leftHeld : ClassName.component? left = some leftComponent)
    (rightHeld : ClassName.component? right = some rightComponent)
    (inner : hierarchy.LeastCommon leftComponent rightComponent common) :
    hierarchy.LeastCommon ('[' :: left) ('[' :: right) (ClassName.arrayOf common) := by
  refine ⟨?_, inner.grounded.arrayOf, ?_⟩
  · rw [commonName?_components different leftHeld rightHeld, inner.found, Option.map_some]
  · intro super onLeft onRight
    obtain ⟨rest, shape, held⟩ := arrayOf_eq_cons common
    have array {super element component : List Char}
        (holds : ClassName.component? element = some component)
        (below : hierarchy.Supertype ('[' :: element) super) :
        super = objectName.toList ∨
          ∃ other wider, super = '[' :: other ∧ ClassName.component? other = some wider ∧
            hierarchy.Supertype component wider := by
      rcases below.of_array classes with isRoot | rfl | ⟨other, _, wider, rfl, sameHeld, held, above⟩
      · exact .inl isRoot
      · exact .inr ⟨_, _, rfl, holds, .refl _⟩
      · rw [holds] at sameHeld
        cases sameHeld
        exact .inr ⟨_, _, rfl, held, above⟩
    rcases array leftHeld onLeft with rfl | ⟨other, wider, rfl, otherHeld, leftAbove⟩
    · exact .root _
    · rcases array rightHeld onRight with isRoot | ⟨_, _, same, sameHeld, rightAbove⟩
      · exact isRoot ▸ .root _
      · cases same
        rw [otherHeld] at sameHeld
        cases sameHeld
        exact shape ▸ .component held otherHeld (inner.least wider leftAbove rightAbove)

/-- A class and an array have the root in common. -/
theorem leastCommon_of_mixed
    {name : List Char}
    (element : List Char)
    (classes : hierarchy.RelatesClasses)
    (noArray : ∀ rest, name ≠ '[' :: rest) :
    hierarchy.LeastCommon name ('[' :: element) objectName.toList ∧
      hierarchy.LeastCommon ('[' :: element) name objectName.toList :=
  ⟨⟨commonName?_array_right element noArray, grounded_objectName,
      fun _ onLeft onRight => onLeft.root_of_mixed classes noArray onRight⟩,
    ⟨commonName?_array_left element noArray, grounded_objectName,
      fun _ onLeft onRight => onRight.root_of_mixed classes noArray onLeft⟩⟩

/-- Two grounded names have a least common superclass. -/
theorem exists_leastCommon
    {left right : List Char}
    (classes : hierarchy.RelatesClasses)
    (leftGrounded : hierarchy.Grounded left)
    (rightGrounded : hierarchy.Grounded right) :
    ∃ common, hierarchy.LeastCommon left right common := by
  by_cases same : left = right
  · exact ⟨left, same ▸ leastCommon_self leftGrounded⟩
  induction leftGrounded generalizing right with
  | @aClass left leftNoArray leftClass =>
      cases rightGrounded with
      | aClass rightNoArray rightClass =>
          exact exists_leastCommon_of_classes classes same leftNoArray rightNoArray leftClass rightClass
      | primitives | array => exact ⟨_, (leastCommon_of_mixed _ classes leftNoArray).1⟩
  | @primitives element primitive =>
      by_cases array : ∃ rest, right = '[' :: rest
      · obtain ⟨rest, rfl⟩ := array
        exact ⟨_, leastCommon_of_primitives classes (by simpa using same) (.inl primitive)⟩
      · exact ⟨_, (leastCommon_of_mixed element classes (by simpa using array)).2⟩
  | @array element component held grounded inductionHypothesis =>
      by_cases array : ∃ rest, right = '[' :: rest
      · obtain ⟨rest, rfl⟩ := array
        have different : element ≠ rest := by simpa using same
        cases rightHeld : ClassName.component? rest with
        | none => exact ⟨_, leastCommon_of_primitives classes different (.inr rightHeld)⟩
        | some rightComponent =>
            have rightInner := rightGrounded.component rightHeld
            by_cases alike : component = rightComponent
            · subst alike
              exact ⟨_, (leastCommon_self grounded).arrayOf classes different held rightHeld⟩
            · obtain ⟨common, inner⟩ := inductionHypothesis rightInner alike
              exact ⟨_, inner.arrayOf classes different held rightHeld⟩
      · exact ⟨_, (leastCommon_of_mixed element classes (by simpa using array)).2⟩

end Hierarchy
end JvmClass
