import JvmClass.Proofs.Hierarchy.Absorbing
import JvmClass.Proofs.Hierarchy.Ends

namespace JvmClass

/-!
# The closest common superclass

Of the classes on two chains that meet, one is the closest: all others lie above
it, because chains that meet stay together.  So it makes no difference which of
the two chains is searched for a class of the other, and the search is only in
vain if one of the chains stops before the root at a class that is not known.
-/

namespace Hierarchy

/-- Only the root has no superclass, and no chain of superclasses is circular. -/
structure Orderly (hierarchy : Hierarchy) : Prop where
  topped : ∀ name, hierarchy.Tops name → name = objectName
  acyclic : ∀ name, ¬ Relation.TransGen hierarchy.Extends name name

/-- The chain of a class meets an interface. -/
def MeetsInterface (hierarchy : Hierarchy) (name : String) : Prop :=
  ∃ last, Relation.ReflTransGen hierarchy.Extends name last ∧ hierarchy.IsInterface last

/-- The chain of a class stops at a class that is not known. -/
def StopsUnknown (hierarchy : Hierarchy) (name : String) : Prop :=
  ∃ last, Relation.ReflTransGen hierarchy.Extends name last ∧ hierarchy.Unknown last

/-- A class on both chains, above which all other classes on both chains lie. -/
structure Closest (hierarchy : Hierarchy) (left right common : String) : Prop where
  onLeft : Relation.ReflTransGen hierarchy.Extends left common
  onRight : Relation.ReflTransGen hierarchy.Extends right common
  below :
    ∀ super,
      Relation.ReflTransGen hierarchy.Extends left super →
        Relation.ReflTransGen hierarchy.Extends right super →
          Relation.ReflTransGen hierarchy.Extends common super

variable {hierarchy : Hierarchy} {left right common : String}

theorem Closest.symm
    (closest : hierarchy.Closest left right common) :
    hierarchy.Closest right left common :=
  ⟨closest.onRight, closest.onLeft, fun super onRight onLeft => closest.below super onLeft onRight⟩

/-- Two classes do not lie above each other. -/
theorem Orderly.antisymm
    (orderly : hierarchy.Orderly)
    (up : Relation.ReflTransGen hierarchy.Extends left right)
    (down : Relation.ReflTransGen hierarchy.Extends right left) :
    left = right := by
  rcases Relation.reflTransGen_iff_eq_or_transGen.mp up with same | above
  · exact same.symm
  · exact absurd (above.trans_left down) (orderly.acyclic left)

theorem Closest.unique
    {other : String}
    (orderly : hierarchy.Orderly)
    (closest : hierarchy.Closest left right common)
    (otherClosest : hierarchy.Closest left right other) :
    common = other :=
  orderly.antisymm (closest.below other otherClosest.onLeft otherClosest.onRight)
    (otherClosest.below common closest.onLeft closest.onRight)

/-! ## Classes -/

/-- The walk up from a class meets an interface or gives the chain of the class. -/
theorem Orderly.cases_of_ancestry
    (orderly : hierarchy.Orderly)
    (name : String) :
    hierarchy.MeetsInterface name ∧ hierarchy.ancestry name = .interfaceMet ∨
      ¬ hierarchy.MeetsInterface name ∧
        ∃ names complete, hierarchy.ancestry name = .chain names complete := by
  cases walked : hierarchy.ancestry name with
  | circular =>
      obtain ⟨super, circle⟩ := exists_circle_of_walk (by simp) walked
      exact absurd circle (orderly.acyclic super)
  | interfaceMet => exact .inl ⟨exists_interface_of_walk walked, rfl⟩
  | chain names complete =>
      refine .inr ⟨?_, names, complete, rfl⟩
      rintro ⟨other, otherReached, isInterface⟩
      obtain ⟨last, _, reached, tops, unknown, _⟩ := exists_end_of_ancestry walked
      have same (ends : ∀ parent, ¬ hierarchy.Extends last parent) : other = last :=
        eq_of_reaches_ends otherReached (fun _ => isInterface.not_extends) reached ends
      cases complete with
      | true =>
          obtain rfl := same fun _ => (tops rfl).not_extends
          exact isInterface.not_tops (tops rfl)
      | false =>
          obtain rfl := same fun _ => (unknown rfl).not_extends
          exact isInterface.not_unknown (unknown rfl)

section Chains

variable {leftNames rightNames : List String} {leftComplete rightComplete : Bool}

/-- The first class of one chain that is on the other is the closest one. -/
theorem closest_of_commonClass?
    (leftChain : hierarchy.ancestry left = .chain leftNames leftComplete)
    (rightChain : hierarchy.ancestry right = .chain rightNames rightComplete)
    (found : hierarchy.commonClass? left right = some common) :
    hierarchy.Closest left right common := by
  simp only [commonClass?, leftChain, rightChain] at found
  obtain ⟨onLeft, ahead, behind, shape, missed⟩ := List.find?_eq_some_iff_append.mp found
  have onRight : common ∈ rightNames := by simp [shape]
  refine ⟨reaches_of_ancestry leftChain (by simpa using onLeft),
    reaches_of_ancestry rightChain onRight, fun super leftReached rightReached => ?_⟩
  obtain ⟨_, _, _, _, _, leftAll⟩ := exists_end_of_ancestry leftChain
  obtain ⟨_, _, _, _, _, rightAll⟩ := exists_end_of_ancestry rightChain
  -- A class on both chains does not come before the first one that is on both.
  have later : super ∈ common :: behind := by
    have placed := (rightAll super).mpr rightReached
    rw [shape, List.mem_append] at placed
    refine placed.resolve_left fun before => ?_
    simpa [(leftAll super).mpr leftReached] using missed super before
  obtain ⟨front, rest, split, restChain⟩ := ancestry_of_mem rightChain onRight
  have distinct := (nodup_of_ancestry rightChain).1
  have sameRest : behind = rest := by
    have notAhead : common ∉ ahead := fun before =>
      (List.nodup_append.mp (shape ▸ distinct)).2.2 common before common (by simp) rfl
    have notBehind : common ∉ behind :=
      (List.nodup_cons.mp (List.nodup_append.mp (shape ▸ distinct)).2.1).1
    exact ((List.append_cons_inj_of_notMem notAhead notBehind).mp (shape.symm.trans split)).2.2
  exact reaches_of_ancestry restChain (sameRest ▸ later)

/-- Chains that share no class do not both end at the root. -/
theorem Orderly.stopsUnknown_of_chains
    (orderly : hierarchy.Orderly)
    (leftChain : hierarchy.ancestry left = .chain leftNames leftComplete)
    (rightChain : hierarchy.ancestry right = .chain rightNames rightComplete)
    (missing : hierarchy.commonClass? left right = none) :
    hierarchy.StopsUnknown left ∨ hierarchy.StopsUnknown right := by
  obtain ⟨leftEnd, _, leftReached, leftTops, leftUnknown, leftAll⟩ :=
    exists_end_of_ancestry leftChain
  obtain ⟨rightEnd, _, rightReached, rightTops, rightUnknown, rightAll⟩ :=
    exists_end_of_ancestry rightChain
  cases leftComplete with
  | false => exact .inl ⟨leftEnd, leftReached, leftUnknown rfl⟩
  | true =>
      cases rightComplete with
      | false => exact .inr ⟨rightEnd, rightReached, rightUnknown rfl⟩
      | true =>
          have sameEnd : leftEnd = rightEnd :=
            (orderly.topped _ (leftTops rfl)).trans (orderly.topped _ (rightTops rfl)).symm
          have shared : (hierarchy.commonClass? left right).isSome :=
            (commonClass?_isSome_iff leftChain rightChain).mpr
              ⟨leftEnd, (leftAll leftEnd).mpr leftReached,
                (rightAll leftEnd).mpr (sameEnd ▸ rightReached)⟩
          simp [missing] at shared

end Chains

/-- A class whose chain meets an interface has the root in common with any other. -/
theorem Orderly.commonClass?_of_meetsInterface
    (orderly : hierarchy.Orderly)
    (met : hierarchy.MeetsInterface left ∨ hierarchy.MeetsInterface right) :
    hierarchy.commonClass? left right = some objectName := by
  rcases orderly.cases_of_ancestry left with ⟨_, leftMet⟩ | ⟨leftNone, _, _, leftChain⟩
  · simp [commonClass?, leftMet]
  · rcases orderly.cases_of_ancestry right with ⟨_, rightMet⟩ | ⟨rightNone, _⟩
    · simp [commonClass?, leftChain, rightMet]
    · exact absurd met (not_or.mpr ⟨leftNone, rightNone⟩)

/-- A class whose chain meets no interface has a chain to search. -/
theorem Orderly.exists_chain
    {name : String}
    (orderly : hierarchy.Orderly)
    (noInterface : ¬ hierarchy.MeetsInterface name) :
    ∃ names complete, hierarchy.ancestry name = .chain names complete :=
  (orderly.cases_of_ancestry name).elim (fun ⟨met, _⟩ => absurd met noInterface) And.right

/-- Classes whose chains meet no interface have something in common if the chains meet. -/
theorem Orderly.commonClass?_isSome_iff
    (orderly : hierarchy.Orderly)
    (leftNone : ¬ hierarchy.MeetsInterface left)
    (rightNone : ¬ hierarchy.MeetsInterface right) :
    (hierarchy.commonClass? left right).isSome ↔
      ∃ super,
        Relation.ReflTransGen hierarchy.Extends left super ∧
          Relation.ReflTransGen hierarchy.Extends right super := by
  obtain ⟨_, _, leftChain⟩ := orderly.exists_chain leftNone
  obtain ⟨_, _, rightChain⟩ := orderly.exists_chain rightNone
  obtain ⟨_, _, _, _, _, leftAll⟩ := exists_end_of_ancestry leftChain
  obtain ⟨_, _, _, _, _, rightAll⟩ := exists_end_of_ancestry rightChain
  simp only [Hierarchy.commonClass?_isSome_iff leftChain rightChain, leftAll, rightAll]

/-- Classes of which neither chain meets an interface have their closest class in common. -/
theorem Orderly.commonClass?_eq_some_iff
    (orderly : hierarchy.Orderly)
    (leftNone : ¬ hierarchy.MeetsInterface left)
    (rightNone : ¬ hierarchy.MeetsInterface right) :
    hierarchy.commonClass? left right = some common ↔ hierarchy.Closest left right common := by
  obtain ⟨_, _, leftChain⟩ := orderly.exists_chain leftNone
  obtain ⟨_, _, rightChain⟩ := orderly.exists_chain rightNone
  refine ⟨closest_of_commonClass? leftChain rightChain, fun closest => ?_⟩
  obtain ⟨other, found⟩ :=
    Option.isSome_iff_exists.mp
      ((orderly.commonClass?_isSome_iff leftNone rightNone).mpr
        ⟨common, closest.onLeft, closest.onRight⟩)
  rw [found, (closest_of_commonClass? leftChain rightChain found).unique orderly closest]

/-- Two classes have nothing in common only if a chain stops at a class that is not known. -/
theorem Orderly.stopsUnknown_of_commonClass?
    (orderly : hierarchy.Orderly)
    (missing : hierarchy.commonClass? left right = none) :
    hierarchy.StopsUnknown left ∨ hierarchy.StopsUnknown right := by
  by_cases met : hierarchy.MeetsInterface left ∨ hierarchy.MeetsInterface right
  · rw [orderly.commonClass?_of_meetsInterface met] at missing
    cases missing
  · obtain ⟨leftNone, rightNone⟩ := not_or.mp met
    obtain ⟨_, _, leftChain⟩ := orderly.exists_chain leftNone
    obtain ⟨_, _, rightChain⟩ := orderly.exists_chain rightNone
    exact orderly.stopsUnknown_of_chains leftChain rightChain missing

/-- It makes no difference which chain is searched. -/
theorem Orderly.commonClass?_comm
    (orderly : hierarchy.Orderly)
    (left right : String) :
    hierarchy.commonClass? left right = hierarchy.commonClass? right left := by
  by_cases met : hierarchy.MeetsInterface left ∨ hierarchy.MeetsInterface right
  · rw [orderly.commonClass?_of_meetsInterface met, orderly.commonClass?_of_meetsInterface met.symm]
  · obtain ⟨leftNone, rightNone⟩ := not_or.mp met
    refine Option.ext fun common => ?_
    rw [orderly.commonClass?_eq_some_iff leftNone rightNone,
      orderly.commonClass?_eq_some_iff rightNone leftNone]
    exact ⟨Closest.symm, Closest.symm⟩

/-! ## Classes and arrays -/

/-- The chain of a class, or of what an array holds in the end, stops at an unknown class. -/
inductive OpenEnded (hierarchy : Hierarchy) : List Char → Prop where
  | aClass {name : List Char} :
      (∀ rest, name ≠ '[' :: rest) →
      hierarchy.StopsUnknown (String.ofList name) →
      OpenEnded hierarchy name
  | array {element component : List Char} :
      ClassName.component? element = some component →
      OpenEnded hierarchy component →
      OpenEnded hierarchy ('[' :: element)

/-- Two names have the same in common either way round. -/
theorem Orderly.commonName?_comm
    (orderly : hierarchy.Orderly)
    (left right : List Char) :
    hierarchy.commonName? left right = hierarchy.commonName? right left := by
  fun_induction commonName? hierarchy left right with
  | case1 => rw [commonName?_self]
  | case2 left right leftComponent rightComponent leftHeld rightHeld different
      inductionHypothesis =>
      rw [commonName?_components (fun same => different (by rw [same])) rightHeld leftHeld,
        inductionHypothesis]
  | case3 left right missing different =>
      refine (commonName?_primitives (fun same => different (by rw [same])) ?_).symm
      cases rightHeld : ClassName.component? right with
      | none => exact .inl rfl
      | some rightComponent =>
          cases leftHeld : ClassName.component? left with
          | none => exact .inr rfl
          | some leftComponent => exact absurd rightHeld (missing _ _ leftHeld)
  | case4 right element noArray => rw [commonName?_array_right element noArray]
  | case5 left element noArray => rw [commonName?_array_left element noArray]
  | case6 left right _ leftNoArray rightNoArray different =>
      rw [commonName?_classes (Ne.symm different) rightNoArray leftNoArray,
        orderly.commonClass?_comm]

/-- Two names have nothing in common only if a chain stops at a class that is not known. -/
theorem Orderly.openEnded_of_commonName?
    {left right : List Char}
    (orderly : hierarchy.Orderly)
    (missing : hierarchy.commonName? left right = none) :
    hierarchy.OpenEnded left ∨ hierarchy.OpenEnded right := by
  fun_induction commonName? hierarchy left right with
  | case2 left right leftComponent rightComponent leftHeld rightHeld _ inductionHypothesis =>
      exact (inductionHypothesis (Option.map_eq_none_iff.mp missing)).imp (.array leftHeld)
        (.array rightHeld)
  | case6 left right _ leftNoArray rightNoArray =>
      exact (orderly.stopsUnknown_of_commonClass? (Option.map_eq_none_iff.mp missing)).imp
        (.aClass leftNoArray) (.aClass rightNoArray)
  | case1 | case3 | case4 | case5 => cases missing

/-! ## Names -/

/-- The name is that of an array. -/
def IsArray (name : String) : Prop :=
  ∃ element, name.toList = '[' :: element

/-- The name is that of an array of classes or arrays of a name. -/
def IsArrayOf (name component : String) : Prop :=
  ∃ element,
    name.toList = '[' :: element ∧ ClassName.component? element = some component.toList

/-- What two different classes have in common as names. -/
theorem commonSuperclass?_classes
    (different : left ≠ right)
    (leftNoArray : ¬ IsArray left)
    (rightNoArray : ¬ IsArray right) :
    hierarchy.commonSuperclass? left right = hierarchy.commonClass? left right := by
  rw [commonSuperclass?,
    commonName?_classes (fun same => different (String.toList_inj.mp same))
      (not_exists.mp leftNoArray) (not_exists.mp rightNoArray),
    String.ofList_toList, String.ofList_toList, Option.map_map]
  simp [Function.comp_def]

/-- What the name that two names have in common is. -/
structure Common (hierarchy : Hierarchy) (left right : String) : Prop where
  comm : hierarchy.commonSuperclass? left right = hierarchy.commonSuperclass? right left
  /-- Classes of which no chain meets an interface have something in common if the chains meet. -/
  shared :
    left ≠ right → ¬ IsArray left → ¬ IsArray right →
      ¬ hierarchy.MeetsInterface left → ¬ hierarchy.MeetsInterface right →
        ((hierarchy.commonSuperclass? left right).isSome ↔
          ∃ super,
            Relation.ReflTransGen hierarchy.Extends left super ∧
              Relation.ReflTransGen hierarchy.Extends right super)
  /-- What they have in common is the closest class on both chains. -/
  closest :
    left ≠ right → ¬ IsArray left → ¬ IsArray right →
      ¬ hierarchy.MeetsInterface left → ¬ hierarchy.MeetsInterface right →
        ∀ common,
          hierarchy.commonSuperclass? left right = some common ↔
            hierarchy.Closest left right common
  openEnded :
    hierarchy.commonSuperclass? left right = none →
      hierarchy.OpenEnded left.toList ∨ hierarchy.OpenEnded right.toList
  interfaces :
    left ≠ right → ¬ IsArray left → ¬ IsArray right →
      hierarchy.MeetsInterface left ∨ hierarchy.MeetsInterface right →
        hierarchy.commonSuperclass? left right = some objectName
  arrays :
    ∀ leftComponent rightComponent,
      left ≠ right → IsArrayOf left leftComponent → IsArrayOf right rightComponent →
        hierarchy.commonSuperclass? left right =
          (hierarchy.commonSuperclass? leftComponent rightComponent).map fun common =>
            String.ofList (ClassName.arrayOf common.toList)
  /-- An array has nothing but the root in common with what is not an array of classes or arrays. -/
  mixed :
    left ≠ right → IsArray left ∨ IsArray right →
      (∀ component, ¬ IsArrayOf left component) ∨ (∀ component, ¬ IsArrayOf right component) →
        hierarchy.commonSuperclass? left right = some objectName

/-- Different arrays of classes or arrays have in common what their components have. -/
theorem commonSuperclass?_arrays
    {leftComponent rightComponent : String}
    (different : left ≠ right)
    (leftHolds : IsArrayOf left leftComponent)
    (rightHolds : IsArrayOf right rightComponent) :
    hierarchy.commonSuperclass? left right =
      (hierarchy.commonSuperclass? leftComponent rightComponent).map fun common =>
        String.ofList (ClassName.arrayOf common.toList) := by
  obtain ⟨leftElement, leftShape, leftHeld⟩ := leftHolds
  obtain ⟨rightElement, rightShape, rightHeld⟩ := rightHolds
  have apart : leftElement ≠ rightElement := by
    rintro rfl
    exact different (String.toList_inj.mp (leftShape.trans rightShape.symm))
  rw [commonSuperclass?, leftShape, rightShape, commonName?_components apart leftHeld rightHeld,
    commonSuperclass?, Option.map_map, Option.map_map]
  simp [Function.comp_def]

/-- An array has the root in common with what is not an array of classes or arrays. -/
theorem commonSuperclass?_mixed
    (different : left ≠ right)
    (array : IsArray left ∨ IsArray right)
    (noComponent :
      (∀ component, ¬ IsArrayOf left component) ∨ ∀ component, ¬ IsArrayOf right component) :
    hierarchy.commonSuperclass? left right = some objectName := by
  have root (found : hierarchy.commonName? left.toList right.toList = some objectName.toList) :
      hierarchy.commonSuperclass? left right = some objectName := by
    rw [commonSuperclass?, found, Option.map_some, String.ofList_toList]
  -- An element that no component stands in is one of primitives.
  have primitive {name : String} {element : List Char} (shape : name.toList = '[' :: element)
      (holdsNone : ∀ component, ¬ IsArrayOf name component) :
      ClassName.component? element = none := by
    refine Option.eq_none_iff_forall_ne_some.mpr fun component held => ?_
    exact holdsNone (String.ofList component) ⟨element, shape, by simpa using held⟩
  refine root ?_
  by_cases leftArray : IsArray left
  · obtain ⟨leftElement, leftShape⟩ := leftArray
    by_cases rightArray : IsArray right
    · obtain ⟨rightElement, rightShape⟩ := rightArray
      have apart : leftElement ≠ rightElement := by
        rintro rfl
        exact different (String.toList_inj.mp (leftShape.trans rightShape.symm))
      rw [leftShape, rightShape]
      exact
        commonName?_primitives apart
          (noComponent.imp (primitive leftShape) (primitive rightShape))
    · rw [leftShape]
      exact commonName?_array_left leftElement (not_exists.mp rightArray)
  · obtain ⟨rightElement, rightShape⟩ := array.resolve_left leftArray
    rw [rightShape]
    exact commonName?_array_right rightElement (not_exists.mp leftArray)

/-- In an orderly hierarchy two names have their closest common superclass in common. -/
theorem common_of_orderly
    (orderly : hierarchy.Orderly)
    (left right : String) :
    hierarchy.Common left right where
  comm := by rw [commonSuperclass?, commonSuperclass?, orderly.commonName?_comm]
  shared different leftNoArray rightNoArray leftNone rightNone := by
    rw [commonSuperclass?_classes different leftNoArray rightNoArray]
    exact orderly.commonClass?_isSome_iff leftNone rightNone
  closest different leftNoArray rightNoArray leftNone rightNone common := by
    rw [commonSuperclass?_classes different leftNoArray rightNoArray]
    exact orderly.commonClass?_eq_some_iff leftNone rightNone
  openEnded missing := orderly.openEnded_of_commonName? (Option.map_eq_none_iff.mp missing)
  interfaces different leftNoArray rightNoArray met := by
    rw [commonSuperclass?_classes different leftNoArray rightNoArray]
    exact orderly.commonClass?_of_meetsInterface met
  arrays _ _ := commonSuperclass?_arrays
  mixed := commonSuperclass?_mixed

/-- A table is orderly if all its classes have superclasses and each ranks below its superclass. -/
theorem orderly_of_table
    {table : SuperclassTable}
    (rank : String → Nat)
    (ranked :
      ∀ entry ∈ table.entries, ∃ parent ∈ entry.2.superName, rank parent < rank entry.1) :
    Orderly [.table table] := by
  have listed {name : String} {info : ClassInfo} (notRoot : name ≠ objectName)
      (found : lookup [.table table] name = some info) : (name, info) ∈ table.entries := by
    have known : table.entries.lookup name = some info := by
      simpa [lookup, HierarchyLayer.lookup, SuperclassTable.lookup, notRoot] using found
    obtain ⟨front, back, shape, _⟩ := List.lookup_eq_some_iff.mp known
    simp [shape]
  have ascends {child parent : String} (named : Extends [.table table] child parent) :
      rank parent < rank child := by
    obtain ⟨notRoot, info, found, _, parentNamed⟩ := named
    obtain ⟨other, otherNamed, less⟩ := ranked _ (listed notRoot found)
    cases parentNamed.symm.trans otherNamed
    exact less
  have climbs {child super : String}
      (above : Relation.TransGen (Extends [.table table]) child super) :
      rank super < rank child := by
    induction above with
    | single named => exact ascends named
    | tail _ named inductionHypothesis => exact Nat.lt_trans (ascends named) inductionHypothesis
  refine ⟨fun name tops => ?_, fun name circle => Nat.lt_irrefl _ (climbs circle)⟩
  by_contra notRoot
  obtain ⟨info, found, _, parentless⟩ := tops.resolve_left notRoot
  obtain ⟨parent, named, _⟩ := ranked _ (listed notRoot found)
  cases parentless.symm.trans named

theorem orderly_shapes : shapes.Orderly :=
  orderly_of_table
    (fun name => if name = "C" then 3 else if name ∈ ["A", "B", "D"] then 2
      else if name ∈ ["Base", "Shape"] then 1 else 0)
    (by decide)

/-- Siblings, their arrays, an interface and a class of which the superclass is not known. -/
theorem common_of_shapes :
    shapes.Orderly ∧
      shapes.Common "[[LC;" "[[LB;" ∧
        shapes.commonSuperclass? "C" "B" = some "Base" ∧
          shapes.commonSuperclass? "[[LC;" "[[LB;" = some "[[LBase;" ∧
            shapes.commonSuperclass? "Shape" "A" = some objectName ∧
              shapes.commonSuperclass? "A" "D" = none :=
  ⟨orderly_shapes, common_of_orderly orderly_shapes "[[LC;" "[[LB;", by decide +kernel,
    by decide +kernel, by decide +kernel, by decide +kernel⟩

end Hierarchy
end JvmClass
