import JvmClass.Hierarchy
import Mathlib.Logic.Relation

namespace JvmClass

/-!
# Supertypes

The type of a slot may be widened to a supertype of its class: to the root, to
a class further up the chain of superclasses, or, for an array of references, to
an array of a supertype of the component.  The common superclass that a
hierarchy finds is such a supertype of both classes.
-/

namespace Hierarchy

/-- A class names its superclass.  The root and interfaces name none. -/
def Extends
    (hierarchy : Hierarchy)
    (child parent : String) : Prop :=
  child ≠ objectName ∧
    ∃ info,
      hierarchy.lookup child = some info ∧
        info.isInterface = false ∧ info.superName = some parent

/-- The second name is that of a supertype of the type of the first. -/
inductive Supertype (hierarchy : Hierarchy) : List Char → List Char → Prop where
  | refl (name : List Char) : Supertype hierarchy name name
  | root (name : List Char) : Supertype hierarchy name objectName.toList
  | superclass {child super : List Char} {parent : String} :
      hierarchy.Extends (String.ofList child) parent →
      Supertype hierarchy parent.toList super →
      Supertype hierarchy child super
  | component {left right leftComponent rightComponent : List Char} :
      ClassName.component? left = some leftComponent →
      ClassName.component? right = some rightComponent →
      Supertype hierarchy leftComponent rightComponent →
      Supertype hierarchy ('[' :: left) ('[' :: right)

/-! ## Chains of superclasses -/

/-- Every name on the chain that a walk gives is reached by naming superclasses. -/
theorem reaches_of_walk
    {hierarchy : Hierarchy}
    {start current : String}
    {passed names : List String}
    {steps : Nat}
    {complete : Bool}
    (walked : hierarchy.walk passed current steps = .chain names complete)
    (passedReached :
      ∀ name ∈ passed, Relation.ReflTransGen hierarchy.Extends start name)
    (currentReached : Relation.ReflTransGen hierarchy.Extends start current)
    {name : String}
    (member : name ∈ names) :
    Relation.ReflTransGen hierarchy.Extends start name := by
  induction steps generalizing passed current with
  | zero =>
      simp only [walk, Ancestry.chain.injEq] at walked
      obtain ⟨rfl, _⟩ := walked
      simp only [List.reverse_cons, List.mem_append, List.mem_reverse,
        List.mem_singleton] at member
      rcases member with inPassed | rfl
      · exact passedReached name inPassed
      · exact currentReached
  | succ steps inductionHypothesis =>
      have stopped
          (shape : names = (current :: passed).reverse) :
          Relation.ReflTransGen hierarchy.Extends start name := by
        subst shape
        simp only [List.reverse_cons, List.mem_append, List.mem_reverse,
          List.mem_singleton] at member
        rcases member with inPassed | rfl
        · exact passedReached name inPassed
        · exact currentReached
      unfold walk at walked
      split at walked
      · cases walked
        exact stopped rfl
      · rename_i notRoot
        split at walked
        · cases walked
          exact stopped rfl
        · rename_i info found
          split at walked
          · cases walked
          · rename_i noInterface
            split at walked
            · cases walked
              exact stopped rfl
            · rename_i parent parentNamed
              split at walked
              · cases walked
              · refine inductionHypothesis walked ?_ ?_
                · intro earlier earlierMember
                  rcases List.mem_cons.mp earlierMember with rfl | inPassed
                  · exact currentReached
                  · exact passedReached earlier inPassed
                · exact currentReached.tail
                    ⟨notRoot, info, found, by simpa using noInterface, parentNamed⟩

/-- Every name on the chain of a class is reached from the class. -/
theorem reaches_of_ancestry
    {hierarchy : Hierarchy}
    {start name : String}
    {names : List String}
    {complete : Bool}
    (chained : hierarchy.ancestry start = .chain names complete)
    (member : name ∈ names) :
    Relation.ReflTransGen hierarchy.Extends start name :=
  reaches_of_walk chained (by simp) .refl member

/-- Nothing lies above the root. -/
theorem eq_objectName_of_reaches
    {hierarchy : Hierarchy}
    {name : String}
    (reached : Relation.ReflTransGen hierarchy.Extends objectName name) :
    name = objectName := by
  rcases reached.cases_head with same | ⟨parent, named, _⟩
  · exact same.symm
  · exact absurd rfl named.1

namespace Supertype

variable {hierarchy : Hierarchy}

/-- A class reached by naming superclasses is a supertype. -/
theorem of_reaches
    {child super : String}
    (reached : Relation.ReflTransGen hierarchy.Extends child super) :
    hierarchy.Supertype child.toList super.toList := by
  induction reached using Relation.ReflTransGen.head_induction_on with
  | refl => exact .refl _
  | head named _ inductionHypothesis =>
      exact .superclass (by simpa using named) inductionHypothesis

/-- A supertype that is no array can be replaced by a class further up its chain. -/
theorem trans_reaches
    {name : List Char}
    {middle super : String}
    (below : hierarchy.Supertype name middle.toList)
    (notArray : ∀ rest, middle.toList ≠ '[' :: rest)
    (reached : Relation.ReflTransGen hierarchy.Extends middle super) :
    hierarchy.Supertype name super.toList := by
  generalize middleShape : middle.toList = middleChars at below
  induction below with
  | refl =>
      rw [← middleShape]
      exact of_reaches reached
  | root =>
      have middleRoot : middle = objectName := String.toList_injective middleShape
      subst middleRoot
      rw [eq_objectName_of_reaches reached]
      exact .root _
  | superclass named _ inductionHypothesis =>
      exact .superclass named (inductionHypothesis middleShape)
  | component =>
      exact absurd middleShape (notArray _)

end Supertype

/-- Behind its `[` an array holds the component that it was made of. -/
theorem arrayOf_eq_cons
    (component : List Char) :
    ∃ rest,
      ClassName.arrayOf component = '[' :: rest ∧
        ClassName.component? rest = some component := by
  unfold ClassName.arrayOf
  split
  · exact ⟨_, rfl, rfl⟩
  · refine ⟨'L' :: component ++ [';'], rfl, ?_⟩
    simp [ClassName.component?, ClassName.insideReference?]

namespace Supertype

variable {hierarchy : Hierarchy}

/-- A supertype that is an array can be replaced by an array of a wider component. -/
theorem trans_arrayOf
    {name element component wider : List Char}
    (below : hierarchy.Supertype name ('[' :: element))
    (held : ClassName.component? element = some component)
    (widened :
      ∀ other,
        hierarchy.Supertype other component →
          hierarchy.Supertype other wider) :
    hierarchy.Supertype name (ClassName.arrayOf wider) := by
  obtain ⟨rest, arrayShape, widerHeld⟩ := arrayOf_eq_cons wider
  rw [arrayShape]
  generalize superShape : '[' :: element = super at below
  induction below with
  | refl =>
      subst superShape
      exact .component held widerHeld (widened component (.refl component))
  | root =>
      exact absurd superShape (by simp [objectName])
  | superclass named _ inductionHypothesis =>
      exact .superclass named (inductionHypothesis superShape)
  | component leftHeld rightHeld componentBelow =>
      cases superShape
      rw [held] at rightHeld
      cases rightHeld
      exact .component leftHeld widerHeld (widened _ componentBelow)

end Supertype

/-- Whatever is below one of two names is below the common superclass of both. -/
def Widens
    (hierarchy : Hierarchy)
    (left right common : List Char) : Prop :=
  (∀ name, hierarchy.Supertype name left → hierarchy.Supertype name common) ∧
    ∀ name, hierarchy.Supertype name right → hierarchy.Supertype name common

/-- Everything is below the root. -/
theorem widens_root
    (hierarchy : Hierarchy)
    (left right : List Char) :
    hierarchy.Widens left right objectName.toList :=
  ⟨fun name _ => .root name, fun name _ => .root name⟩

/-- A class on the chains of two classes is above both. -/
theorem widens_of_commonClass?
    {hierarchy : Hierarchy}
    {left right common : String}
    (leftNoArray : ∀ rest, left.toList ≠ '[' :: rest)
    (rightNoArray : ∀ rest, right.toList ≠ '[' :: rest)
    (found : hierarchy.commonClass? left right = some common) :
    hierarchy.Widens left.toList right.toList common.toList := by
  unfold commonClass? at found
  split at found
  · cases found
  · cases found
    exact widens_root hierarchy _ _
  · rename_i ancestors _ leftChain
    split at found
    · cases found
    · cases found
      exact widens_root hierarchy _ _
    · rename_i names _ rightChain
      have onRight : common ∈ names := List.mem_of_find?_eq_some found
      have onLeft : common ∈ ancestors := by
        simpa using List.find?_some found
      exact
        ⟨fun _ below =>
            below.trans_reaches leftNoArray (reaches_of_ancestry leftChain onLeft),
          fun _ below =>
            below.trans_reaches rightNoArray (reaches_of_ancestry rightChain onRight)⟩

/-- The common superclass of two names is above both. -/
theorem widens_of_commonName?
    {hierarchy : Hierarchy}
    {left right common : List Char}
    (found : hierarchy.commonName? left right = some common) :
    hierarchy.Widens left right common := by
  fun_induction commonName? hierarchy left right generalizing common with
  | case1 name =>
      cases found
      exact ⟨fun _ below => below, fun _ below => below⟩
  | case2 left right leftComponent rightComponent leftHeld rightHeld _
      inductionHypothesis =>
      obtain ⟨component, componentFound, rfl⟩ := Option.map_eq_some_iff.mp found
      obtain ⟨leftWidens, rightWidens⟩ := inductionHypothesis componentFound
      exact
        ⟨fun _ below => below.trans_arrayOf leftHeld leftWidens,
          fun _ below => below.trans_arrayOf rightHeld rightWidens⟩
  | case3 =>
      cases found
      exact widens_root hierarchy _ _
  | case4 =>
      cases found
      exact widens_root hierarchy _ _
  | case5 =>
      cases found
      exact widens_root hierarchy _ _
  | case6 left right _ leftNoArray rightNoArray =>
      obtain ⟨name, nameFound, rfl⟩ := Option.map_eq_some_iff.mp found
      have widens :=
        widens_of_commonClass?
          (fun rest shape => leftNoArray rest (by simpa using shape))
          (fun rest shape => rightNoArray rest (by simpa using shape)) nameFound
      simpa using widens

end Hierarchy
end JvmClass
