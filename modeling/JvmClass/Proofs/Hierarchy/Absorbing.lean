import JvmClass.Proofs.Hierarchy.Ancestry

namespace JvmClass

/-!
# Common superclasses absorb

The common superclass of two names has itself in common with either of them, and
so has whatever it is merged to further on.  This needs to be told how a name is
related to the root wherever the root is what the two have in common: an array or
an interface has the root in common with a class that is not known at all, while
the root and that class have no known class in common.
-/

namespace Hierarchy

/-- The walk up from a class reaches the root or meets an interface. -/
def RootedClass (hierarchy : Hierarchy) (name : String) : Prop :=
  hierarchy.ancestry name = .interfaceMet ∨
    ∃ names complete,
      hierarchy.ancestry name = .chain names complete ∧ objectName ∈ names

/-- The class of a name, or the class that an array of this name holds in the end, is rooted. -/
inductive Rooted (hierarchy : Hierarchy) : List Char → Prop where
  | aClass {name : List Char} :
      (∀ rest, name ≠ '[' :: rest) →
      hierarchy.RootedClass (String.ofList name) →
      Rooted hierarchy name
  | primitives {element : List Char} :
      ClassName.component? element = none →
      Rooted hierarchy ('[' :: element)
  | array {element component : List Char} :
      ClassName.component? element = some component →
      Rooted hierarchy component →
      Rooted hierarchy ('[' :: element)

/-- Superclasses are told of classes and are classes; an array neither has nor is one. -/
def RelatesClasses (hierarchy : Hierarchy) : Prop :=
  ∀ child parent,
    hierarchy.Extends child parent →
      (∀ rest, child.toList ≠ '[' :: rest) ∧ ∀ rest, parent.toList ≠ '[' :: rest

/-- A table relates classes if it has no array among its names. -/
theorem relatesClasses_of_table
    {table : SuperclassTable}
    (plain :
      ∀ entry ∈ table.entries,
        entry.1.toList.head? ≠ some '[' ∧
          ∀ parent ∈ entry.2.superName, parent.toList.head? ≠ some '[') :
    RelatesClasses [.table table] := by
  rintro child parent ⟨notRoot, info, found, _, named⟩
  have listed : table.entries.lookup child = some info := by
    simpa [lookup, HierarchyLayer.lookup, SuperclassTable.lookup, notRoot] using found
  obtain ⟨front, back, shape, _⟩ := List.lookup_eq_some_iff.mp listed
  obtain ⟨childPlain, parentPlain⟩ := plain (child, info) (by simp [shape])
  refine ⟨fun rest array => childPlain ?_, fun rest array => parentPlain parent named ?_⟩
  · rw [array, List.head?_cons]
  · rw [array, List.head?_cons]

/-- The name is that of the root or of an array of it. -/
inductive OfRoot : List Char → Prop where
  | root : OfRoot objectName.toList
  | array {element component : List Char} :
      ClassName.component? element = some component →
      OfRoot component →
      OfRoot ('[' :: element)

variable {hierarchy : Hierarchy}

theorem objectName_ne_array (rest : List Char) : objectName.toList ≠ '[' :: rest := by
  simp [objectName]

/-! ## Names by their shapes -/

@[simp] theorem commonName?_self (name : List Char) :
    hierarchy.commonName? name name = some name := by
  unfold commonName?
  exact if_pos rfl

theorem commonName?_components
    {left right leftComponent rightComponent : List Char}
    (different : left ≠ right)
    (leftHeld : ClassName.component? left = some leftComponent)
    (rightHeld : ClassName.component? right = some rightComponent) :
    hierarchy.commonName? ('[' :: left) ('[' :: right) =
      (hierarchy.commonName? leftComponent rightComponent).map ClassName.arrayOf := by
  rw [commonName?.eq_1, if_neg (by simpa using different)]
  split
  · rename_i leftFound rightFound
    rw [leftHeld] at leftFound
    rw [rightHeld] at rightFound
    cases leftFound
    cases rightFound
    rfl
  · rename_i missing
    exact (missing _ _ leftHeld rightHeld).elim

theorem commonName?_primitives
    {left right : List Char}
    (different : left ≠ right)
    (primitive : ClassName.component? left = none ∨ ClassName.component? right = none) :
    hierarchy.commonName? ('[' :: left) ('[' :: right) = some objectName.toList := by
  rw [commonName?.eq_1, if_neg (by simpa using different)]
  split
  · rename_i leftHeld rightHeld
    rw [leftHeld, rightHeld] at primitive
    simp at primitive
  · rfl

theorem commonName?_array_left
    {right : List Char}
    (element : List Char)
    (noArray : ∀ rest, right ≠ '[' :: rest) :
    hierarchy.commonName? ('[' :: element) right = some objectName.toList := by
  rw [commonName?.eq_2 hierarchy right element noArray, if_neg (noArray element).symm]

theorem commonName?_array_right
    {left : List Char}
    (element : List Char)
    (noArray : ∀ rest, left ≠ '[' :: rest) :
    hierarchy.commonName? left ('[' :: element) = some objectName.toList := by
  rw [commonName?.eq_3 hierarchy left element noArray, if_neg (noArray element)]

theorem commonName?_classes
    {left right : List Char}
    (different : left ≠ right)
    (leftNoArray : ∀ rest, left ≠ '[' :: rest)
    (rightNoArray : ∀ rest, right ≠ '[' :: rest) :
    hierarchy.commonName? left right =
      (hierarchy.commonClass? (String.ofList left) (String.ofList right)).map String.toList := by
  rw [commonName?.eq_4 hierarchy left right leftNoArray rightNoArray
    fun element _ shape _ => leftNoArray element shape, if_neg different]

/-- Any array has the root in common with the root. -/
theorem commonName?_root_array (element : List Char) :
    hierarchy.commonName? objectName.toList ('[' :: element) = some objectName.toList :=
  commonName?_array_right element objectName_ne_array

/-- What the components of two arrays have in common gives what the arrays have in common. -/
theorem commonName?_arrayOf
    {element component common : List Char}
    (held : ClassName.component? element = some component)
    (absorbed : hierarchy.commonName? common component = some common) :
    hierarchy.commonName? (ClassName.arrayOf common) ('[' :: element) =
      some (ClassName.arrayOf common) := by
  obtain ⟨rest, shape, commonHeld⟩ := arrayOf_eq_cons common
  by_cases same : rest = element
  · rw [shape, same, commonName?_self]
  · rw [shape, commonName?_components same commonHeld held, absorbed, Option.map_some, shape]

/-! ## Classes -/

/-- Two classes have the root in common, or a class on both chains. -/
theorem mem_of_commonClass?
    {left right common : String}
    (found : hierarchy.commonClass? left right = some common) :
    common = objectName ∨
      ∃ leftNames leftComplete rightNames rightComplete,
        hierarchy.ancestry left = .chain leftNames leftComplete ∧ common ∈ leftNames ∧
          hierarchy.ancestry right = .chain rightNames rightComplete ∧ common ∈ rightNames := by
  unfold commonClass? at found
  split at found
  · cases found
  · cases found
    exact .inl rfl
  · rename_i leftNames leftComplete leftChain
    split at found
    · cases found
    · cases found
      exact .inl rfl
    · rename_i rightNames rightComplete rightChain
      refine .inr ⟨leftNames, leftComplete, rightNames, rightComplete, leftChain, ?_, rightChain,
        List.mem_of_find?_eq_some found⟩
      simpa using List.find?_some found

/-- A class on the chain of another has itself in common with it. -/
theorem commonClass?_of_mem
    {name common : String}
    {names : List String}
    {complete : Bool}
    (chained : hierarchy.ancestry name = .chain names complete)
    (member : common ∈ names) :
    hierarchy.commonClass? common name = some common := by
  obtain ⟨front, rest, shape, behind⟩ := ancestry_of_mem chained member
  have distinct := (nodup_of_ancestry chained).1
  unfold commonClass?
  simp only [behind, chained, shape]
  rw [shape, List.nodup_append] at distinct
  rw [List.find?_append, List.find?_eq_none.mpr]
  · simp
  · intro earlier ahead
    simpa using fun later => distinct.2.2 earlier ahead earlier later rfl

/-- The root has itself in common with a rooted class. -/
theorem commonClass?_root
    {name : String}
    (rooted : hierarchy.RootedClass name) :
    hierarchy.commonClass? objectName name = some objectName := by
  rcases rooted with met | ⟨names, complete, chained, member⟩
  · simp [commonClass?, ancestry_objectName, met]
  · exact commonClass?_of_mem chained member

/-- What the root has in common with a class is the root. -/
theorem eq_of_commonClass?_root
    {name common : String}
    (found : hierarchy.commonClass? objectName name = some common) :
    common = objectName := by
  rcases mem_of_commonClass? found with isRoot | ⟨names, complete, _, _, chained, member, _⟩
  · exact isRoot
  · rw [ancestry_objectName] at chained
    cases chained
    simpa using member

/-- The superclasses of a class are no arrays. -/
theorem RelatesClasses.noArray_of_reaches
    {name super : String}
    (classes : hierarchy.RelatesClasses)
    (noArray : ∀ rest, name.toList ≠ '[' :: rest)
    (reached : Relation.ReflTransGen hierarchy.Extends name super) :
    ∀ rest, super.toList ≠ '[' :: rest := by
  rcases reached.cases_tail with same | ⟨child, _, named⟩
  · exact same ▸ noArray
  · exact (classes child super named).2

/-- The chain of a class has no array on it. -/
theorem RelatesClasses.noArray_of_mem
    {name common : String}
    {names : List String}
    {complete : Bool}
    (classes : hierarchy.RelatesClasses)
    (noArray : ∀ rest, name.toList ≠ '[' :: rest)
    (chained : hierarchy.ancestry name = .chain names complete)
    (member : common ∈ names) :
    ∀ rest, common.toList ≠ '[' :: rest :=
  classes.noArray_of_reaches noArray (reaches_of_ancestry chained member)

/-! ## Names -/

/-- What the first name has in common with the second is the first. -/
def Absorbs (hierarchy : Hierarchy) (wide name : List Char) : Prop :=
  hierarchy.commonName? wide name = some wide

/-- A class on the chain of another absorbs it. -/
theorem RelatesClasses.absorbs_of_mem
    {name : List Char}
    {common : String}
    {names : List String}
    {complete : Bool}
    (classes : hierarchy.RelatesClasses)
    (noArray : ∀ rest, name ≠ '[' :: rest)
    (chained : hierarchy.ancestry (String.ofList name) = .chain names complete)
    (member : common ∈ names) :
    hierarchy.Absorbs common.toList name := by
  have commonNoArray := classes.noArray_of_mem (by simpa using noArray) chained member
  by_cases same : common.toList = name
  · rw [Absorbs, same, commonName?_self]
  · rw [Absorbs, commonName?_classes same commonNoArray noArray, String.ofList_toList,
      commonClass?_of_mem chained member, Option.map_some]

/-- The root absorbs what is rooted. -/
theorem absorbs_root
    {name : List Char}
    (rooted : hierarchy.Rooted name) :
    hierarchy.Absorbs objectName.toList name := by
  cases rooted with
  | aClass noArray rootedClass =>
      by_cases same : objectName.toList = name
      · rw [Absorbs, same, commonName?_self]
      · rw [Absorbs, commonName?_classes same objectName_ne_array noArray, String.ofList_toList,
          commonClass?_root rootedClass, Option.map_some]
  | primitives => exact commonName?_root_array _
  | array => exact commonName?_root_array _

/-- What the root has in common with a name is the root. -/
theorem eq_of_commonName?_root
    {name common : List Char}
    (found : hierarchy.commonName? objectName.toList name = some common) :
    common = objectName.toList := by
  by_cases same : objectName.toList = name
  · rw [← same, commonName?_self] at found
    exact (Option.some.inj found).symm
  · by_cases array : ∃ element, name = '[' :: element
    · obtain ⟨element, rfl⟩ := array
      rw [commonName?_root_array] at found
      exact (Option.some.inj found).symm
    · rw [commonName?_classes same objectName_ne_array (by simpa using array)] at found
      obtain ⟨shared, sharedFound, rfl⟩ := Option.map_eq_some_iff.mp found
      rw [String.ofList_toList] at sharedFound
      rw [eq_of_commonClass?_root sharedFound]

/--
What two names have in common absorbs each of them that is rooted, and each of
them if it is neither the root nor an array of it.
-/
theorem absorbs_of_commonName?
    {left right common : List Char}
    (classes : hierarchy.RelatesClasses)
    (found : hierarchy.commonName? left right = some common) :
    (hierarchy.Rooted left ∨ ¬ OfRoot common → hierarchy.Absorbs common left) ∧
      (hierarchy.Rooted right ∨ ¬ OfRoot common → hierarchy.Absorbs common right) := by
  have root {name : List Char} (told : hierarchy.Rooted name ∨ ¬ OfRoot objectName.toList) :
      hierarchy.Absorbs objectName.toList name := by
    rcases told with rooted | notRoot
    · exact absorbs_root rooted
    · exact absurd .root notRoot
  fun_induction commonName? hierarchy left right generalizing common with
  | case1 name =>
      cases found
      exact ⟨fun _ => commonName?_self _, fun _ => commonName?_self _⟩
  | case2 left right leftComponent rightComponent leftHeld rightHeld _
      inductionHypothesis =>
      obtain ⟨component, componentFound, rfl⟩ := Option.map_eq_some_iff.mp found
      obtain ⟨leftAbsorbed, rightAbsorbed⟩ := inductionHypothesis componentFound
      obtain ⟨rest, shape, held⟩ := arrayOf_eq_cons component
      have inner {element name : List Char} (holds : ClassName.component? element = some name)
          (told : hierarchy.Rooted ('[' :: element) ∨ ¬ OfRoot (ClassName.arrayOf component)) :
          hierarchy.Rooted name ∨ ¬ OfRoot component := by
        rcases told with rooted | notRoot
        · left
          cases rooted with
          | aClass noArray => exact absurd rfl (noArray _)
          | primitives none => simp [holds] at none
          | array otherHeld rooted =>
              rw [holds] at otherHeld
              cases otherHeld
              exact rooted
        · right
          intro ofRoot
          exact notRoot (shape ▸ .array held ofRoot)
      exact
        ⟨fun told => commonName?_arrayOf leftHeld (leftAbsorbed (inner leftHeld told)),
          fun told => commonName?_arrayOf rightHeld (rightAbsorbed (inner rightHeld told))⟩
  | case3 =>
      cases found
      exact ⟨root, root⟩
  | case4 =>
      cases found
      exact ⟨root, root⟩
  | case5 =>
      cases found
      exact ⟨root, root⟩
  | case6 left right _ leftNoArray rightNoArray =>
      obtain ⟨name, nameFound, rfl⟩ := Option.map_eq_some_iff.mp found
      rcases mem_of_commonClass? nameFound with
        rfl | ⟨_, _, _, _, leftChain, onLeft, rightChain, onRight⟩
      · exact ⟨root, root⟩
      · exact
          ⟨fun _ => classes.absorbs_of_mem leftNoArray leftChain onLeft,
            fun _ => classes.absorbs_of_mem rightNoArray rightChain onRight⟩

/-- What absorbs a class is the class itself, the root, or another class on its chain. -/
theorem cases_of_absorbs
    {wide name : List Char}
    (noArray : ∀ rest, name ≠ '[' :: rest)
    (absorbs : hierarchy.Absorbs wide name) :
    wide = name ∨ wide = objectName.toList ∨
      ∃ shared names complete,
        wide = shared.toList ∧
          hierarchy.ancestry (String.ofList name) = .chain names complete ∧ shared ∈ names := by
  unfold Absorbs at absorbs
  by_cases same : wide = name
  · exact .inl same
  · by_cases array : ∃ element, wide = '[' :: element
    · obtain ⟨element, rfl⟩ := array
      rw [commonName?_array_left element noArray] at absorbs
      exact .inr (.inl (Option.some.inj absorbs).symm)
    · rw [commonName?_classes same (by simpa using array) noArray] at absorbs
      obtain ⟨shared, sharedFound, rfl⟩ := Option.map_eq_some_iff.mp absorbs
      rcases mem_of_commonClass? sharedFound with
        rfl | ⟨_, _, names, complete, _, _, chained, member⟩
      · exact .inr (.inl rfl)
      · exact .inr (.inr ⟨shared, names, complete, rfl, chained, member⟩)

/-- What absorbs an array is the array itself, the root, or an array of what absorbs its component. -/
theorem cases_of_absorbs_array
    {wide element : List Char}
    (absorbs : hierarchy.Absorbs wide ('[' :: element)) :
    wide = '[' :: element ∨ wide = objectName.toList ∨
      ∃ component wider,
        ClassName.component? element = some component ∧
          wide = ClassName.arrayOf wider ∧ hierarchy.Absorbs wider component := by
  unfold Absorbs at absorbs
  by_cases same : wide = '[' :: element
  · exact .inl same
  · by_cases array : ∃ rest, wide = '[' :: rest
    · obtain ⟨rest, rfl⟩ := array
      have different : rest ≠ element := fun shape => same (by rw [shape])
      cases wideHeld : ClassName.component? rest with
      | none =>
          rw [commonName?_primitives different (.inl wideHeld)] at absorbs
          exact .inr (.inl (Option.some.inj absorbs).symm)
      | some wider =>
          cases held : ClassName.component? element with
          | none =>
              rw [commonName?_primitives different (.inr held)] at absorbs
              exact .inr (.inl (Option.some.inj absorbs).symm)
          | some component =>
              rw [commonName?_components different wideHeld held] at absorbs
              obtain ⟨shared, sharedFound, shape⟩ := Option.map_eq_some_iff.mp absorbs
              obtain ⟨other, otherShape, otherHeld⟩ := arrayOf_eq_cons shared
              rw [otherShape] at shape
              cases shape
              rw [wideHeld] at otherHeld
              cases otherHeld
              exact .inr (.inr ⟨component, wider, rfl, otherShape.symm, sharedFound⟩)
    · rw [commonName?_array_right element (by simpa using array)] at absorbs
      exact .inr (.inl (Option.some.inj absorbs).symm)

/-- What has absorbed a rooted name still absorbs it when it is merged further. -/
theorem Absorbs.onward
    {wide name other common : List Char}
    (classes : hierarchy.RelatesClasses)
    (rooted : hierarchy.Rooted name)
    (absorbs : hierarchy.Absorbs wide name)
    (found : hierarchy.commonName? wide other = some common) :
    hierarchy.Absorbs common name := by
  induction rooted generalizing wide other common with
  | @aClass name noArray rootedClass =>
      have rooted : hierarchy.Rooted name := .aClass noArray rootedClass
      rcases cases_of_absorbs noArray absorbs with
        rfl | rfl | ⟨shared, names, complete, rfl, chained, member⟩
      · exact (absorbs_of_commonName? classes found).1 (.inl rooted)
      · rw [eq_of_commonName?_root found]
        exact absorbs_root rooted
      · have sharedNoArray := classes.noArray_of_mem (by simpa using noArray) chained member
        by_cases same : shared.toList = other
        · rw [← same, commonName?_self] at found
          cases found
          exact absorbs
        · by_cases array : ∃ element, other = '[' :: element
          · obtain ⟨element, rfl⟩ := array
            rw [commonName?_array_right element sharedNoArray] at found
            cases found
            exact absorbs_root rooted
          · rw [commonName?_classes same sharedNoArray (by simpa using array),
              String.ofList_toList] at found
            obtain ⟨further, furtherFound, rfl⟩ := Option.map_eq_some_iff.mp found
            rcases mem_of_commonClass? furtherFound with
              rfl | ⟨rest, _, _, _, restChain, onRest, _, _⟩
            · exact absorbs_root rooted
            · obtain ⟨front, behind, shape, behindChain⟩ := ancestry_of_mem chained member
              rw [behindChain] at restChain
              cases restChain
              exact classes.absorbs_of_mem noArray chained
                (shape ▸ List.mem_append_right front onRest)
  | @primitives element primitive =>
      rcases cases_of_absorbs_array absorbs with rfl | rfl | ⟨component, _, held, _⟩
      · exact (absorbs_of_commonName? classes found).1 (.inl (.primitives primitive))
      · rw [eq_of_commonName?_root found]
        exact absorbs_root (.primitives primitive)
      · simp [primitive] at held
  | @array element component held rooted inductionHypothesis =>
      have wholeRooted : hierarchy.Rooted ('[' :: element) := .array held rooted
      rcases cases_of_absorbs_array absorbs with rfl | rfl | ⟨_, wider, otherHeld, rfl, inner⟩
      · exact (absorbs_of_commonName? classes found).1 (.inl wholeRooted)
      · rw [eq_of_commonName?_root found]
        exact absorbs_root wholeRooted
      · rw [held] at otherHeld
        cases otherHeld
        obtain ⟨rest, shape, restHeld⟩ := arrayOf_eq_cons wider
        rw [shape] at found
        by_cases array : ∃ rest, other = '[' :: rest
        · obtain ⟨otherRest, rfl⟩ := array
          by_cases same : rest = otherRest
          · rw [same, commonName?_self] at found
            cases found
            rw [← same, ← shape]
            exact absorbs
          · cases otherHeld : ClassName.component? otherRest with
            | none =>
                rw [commonName?_primitives same (.inr otherHeld)] at found
                cases found
                exact absorbs_root wholeRooted
            | some otherComponent =>
                rw [commonName?_components same restHeld otherHeld] at found
                obtain ⟨further, furtherFound, rfl⟩ := Option.map_eq_some_iff.mp found
                exact commonName?_arrayOf held (inductionHypothesis inner furtherFound)
        · rw [commonName?_array_left rest (by simpa using array)] at found
          cases found
          exact absorbs_root wholeRooted

end Hierarchy
end JvmClass
