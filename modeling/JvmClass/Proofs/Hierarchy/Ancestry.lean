import JvmClass.Proofs.Frame.Supertype
import JvmClass.Proofs.Steps
import Mathlib.Data.List.Nodup
import Mathlib.Data.List.Perm.Subperm

namespace JvmClass

/-!
# Chains of superclasses

The superclasses of a class form a chain in which no name is repeated, and the
chain of a class that lies on it is the rest of it.  A walk passes known classes
only, none of them twice, so the steps that it is given always suffice.
-/

/-! ## Known classes -/

namespace ClassDirectory

/-- The class that a file defines, whatever path leads to the file. -/
def definedName? (bytes : Bytes) : Option String :=
  match ClassFile.ofBytes bytes with
  | .ok file => (file.pool.className file.thisClass).toOption
  | .error _ => none

/-- The classes that the files of a directory define. -/
def definedNames (directory : ClassDirectory) : List String :=
  directory.files.filterMap fun file => definedName? file.2

/-- A file tells only about the class that it defines. -/
theorem definedName?_of_infoOf?
    {name : String}
    {bytes : Bytes}
    {info : ClassInfo}
    (found : infoOf? name bytes = some info) :
    definedName? bytes = some name := by
  unfold infoOf? at found
  unfold definedName?
  split at found
  · cases found
  · rename_i file parsed
    rw [parsed]
    split at found
    · cases found
    · rename_i defined named
      split at found
      · rename_i same
        subst same
        simp [named, Except.toOption]
      · cases found

/-- Every class that a directory knows is defined in one of its files. -/
theorem mem_definedNames_of_lookup
    {directory : ClassDirectory}
    {name : String}
    {info : ClassInfo}
    (found : directory.lookup name = some info) :
    name ∈ directory.definedNames := by
  obtain ⟨bytes, file, told⟩ := Option.bind_eq_some_iff.mp found
  unfold file? at file
  split at file
  · cases file
  · obtain ⟨⟨steps, last⟩, _, file⟩ := Option.bind_eq_some_iff.mp file
    obtain ⟨folder, _, file⟩ := Option.bind_eq_some_iff.mp file
    obtain ⟨front, back, shape, _⟩ := List.lookup_eq_some_iff.mp file
    refine List.mem_filterMap.mpr ⟨(last :: folder, bytes), ?_, definedName?_of_infoOf? told⟩
    simp [shape]

end ClassDirectory

namespace HierarchyLayer

/-- The classes that a layer can know. -/
def names : HierarchyLayer → List String
  | .table known => objectName :: known.entries.map Prod.fst
  | .directory known => known.definedNames

theorem length_names_le (layer : HierarchyLayer) : layer.names.length ≤ layer.size := by
  cases layer with
  | table known => simp [names, size]
  | directory known => exact List.length_filterMap_le _ _

theorem mem_names_of_lookup
    {layer : HierarchyLayer}
    {name : String}
    {info : ClassInfo}
    (found : layer.lookup name = some info) :
    name ∈ layer.names := by
  cases layer with
  | table known =>
      simp only [lookup, SuperclassTable.lookup] at found
      split at found
      · rename_i isRoot
        exact isRoot ▸ List.mem_cons_self
      · obtain ⟨front, back, shape, _⟩ := List.lookup_eq_some_iff.mp found
        simp [names, shape]
  | directory known => exact ClassDirectory.mem_definedNames_of_lookup found

end HierarchyLayer

namespace Hierarchy

variable {hierarchy : Hierarchy}

theorem length_flatMap_names_le (hierarchy : Hierarchy) :
    (hierarchy.flatMap HierarchyLayer.names).length ≤ hierarchy.size := by
  induction hierarchy with
  | nil => exact Nat.le_refl 0
  | cons layer layers inductionHypothesis =>
      rw [List.flatMap_cons, List.length_append, size, List.map_cons, List.foldr_cons]
      exact Nat.add_le_add layer.length_names_le inductionHypothesis

/-- Different known classes are no more than a hierarchy can know. -/
theorem length_le_size
    {names : List String}
    (distinct : names.Nodup)
    (known : ∀ name ∈ names, (hierarchy.lookup name).isSome) :
    names.length ≤ hierarchy.size := by
  have among : names ⊆ hierarchy.flatMap HierarchyLayer.names := by
    intro name member
    obtain ⟨info, found⟩ := Option.isSome_iff_exists.mp (known name member)
    obtain ⟨layer, asked, told⟩ := List.exists_of_findSome?_eq_some found
    exact List.mem_flatMap.mpr ⟨layer, asked, HierarchyLayer.mem_names_of_lookup told⟩
  exact Nat.le_trans (List.subperm_of_subset distinct among).length_le
    (length_flatMap_names_le hierarchy)

/-! ## Walks -/

/-- A class names one superclass. -/
theorem extends_unique : Relator.RightUnique hierarchy.Extends := by
  rintro child left right ⟨_, info, found, _, named⟩ ⟨_, other, otherFound, _, otherNamed⟩
  rw [found] at otherFound
  cases otherFound
  rw [named] at otherNamed
  cases otherNamed
  rfl

/-- A walk that has as many steps left as there are classes to pass gains nothing by more. -/
theorem walk_eq_of_le
    {passed : List String}
    {current : String}
    {steps more : Nat}
    (distinct : (current :: passed).Nodup)
    (known : ∀ name ∈ passed, (hierarchy.lookup name).isSome)
    (enough : hierarchy.size < passed.length + steps)
    (le : steps ≤ more) :
    hierarchy.walk passed current more = hierarchy.walk passed current steps := by
  induction steps generalizing passed current more with
  | zero =>
      have few := length_le_size (List.nodup_cons.mp distinct).2 known
      omega
  | succ steps inductionHypothesis =>
      obtain ⟨more, rfl⟩ : ∃ fewer, more = fewer + 1 := ⟨more - 1, by omega⟩
      unfold walk
      split
      · rfl
      · split
        · rfl
        · rename_i info found
          split
          · rfl
          · split
            · rfl
            · rename_i parent _
              split
              · rfl
              · rename_i fresh
                refine inductionHypothesis ?_ ?_ ?_ (by omega)
                · exact List.nodup_cons.mpr ⟨by simpa using fresh, distinct⟩
                · intro name member
                  rcases List.mem_cons.mp member with rfl | earlier
                  · exact Option.isSome_iff_exists.mpr ⟨info, found⟩
                  · exact known name earlier
                · rw [List.length_cons]
                  omega

/-- A walk that passed fewer classes before gives the same chain without them. -/
theorem walk_of_append
    {front back names : List String}
    {current : String}
    {steps : Nat}
    {complete : Bool}
    (walked : hierarchy.walk (front ++ back) current steps = .chain names complete) :
    ∃ rest,
      names = back.reverse ++ rest ∧ hierarchy.walk front current steps = .chain rest complete := by
  induction steps generalizing front current with
  | zero =>
      cases walked
      exact ⟨_, by simp, rfl⟩
  | succ steps inductionHypothesis =>
      unfold walk at walked ⊢
      split at walked
      · rename_i isRoot
        cases walked
        exact ⟨(current :: front).reverse, by simp, by rw [if_pos isRoot]⟩
      · rename_i notRoot
        rw [if_neg notRoot]
        split at walked
        · rename_i unknown
          cases walked
          exact ⟨(current :: front).reverse, by simp, rfl⟩
        · rename_i info found
          split at walked
          · cases walked
          · rename_i noInterface
            split at walked
            · rename_i parentless
              cases walked
              exact ⟨(current :: front).reverse, by simp, by simp [noInterface]⟩
            · rename_i parent named
              split at walked
              · cases walked
              · rename_i fresh
                have stillFresh : ¬ (current :: front).contains parent = true := by
                  simp only [List.contains_eq_mem, List.mem_cons, List.mem_append,
                    decide_eq_true_eq, not_or] at fresh ⊢
                  exact ⟨fresh.1, fresh.2.1⟩
                have onward :
                    hierarchy.walk ((current :: front) ++ back) parent steps =
                      .chain names complete := walked
                obtain ⟨rest, shape, walked⟩ := inductionHypothesis onward
                refine ⟨rest, shape, ?_⟩
                rw [if_neg noInterface]
                exact (if_neg stillFresh).trans walked

/-- A walk gives the classes that it passed, the current one and those behind it, none twice. -/
theorem nodup_of_walk
    {passed names : List String}
    {current : String}
    {steps : Nat}
    {complete : Bool}
    (distinct : (current :: passed).Nodup)
    (walked : hierarchy.walk passed current steps = .chain names complete) :
    names.Nodup ∧ ∃ rest, names = passed.reverse ++ current :: rest := by
  have stopped : (current :: passed).reverse.Nodup ∧
      ∃ rest, (current :: passed).reverse = passed.reverse ++ current :: rest :=
    ⟨List.nodup_reverse.mpr distinct, [], by simp⟩
  induction steps generalizing passed current with
  | zero =>
      cases walked
      exact stopped
  | succ steps inductionHypothesis =>
      unfold walk at walked
      split at walked
      · cases walked
        exact stopped
      · split at walked
        · cases walked
          exact stopped
        · split at walked
          · cases walked
          · split at walked
            · cases walked
              exact stopped
            · rename_i parent _
              split at walked
              · cases walked
              · rename_i fresh
                have further : (parent :: current :: passed).Nodup :=
                  List.nodup_cons.mpr ⟨by simpa using fresh, distinct⟩
                obtain ⟨apart, rest, shape⟩ :=
                  inductionHypothesis further walked
                    ⟨List.nodup_reverse.mpr further, [], by simp⟩
                exact ⟨apart, parent :: rest, by simpa using shape⟩

/-- Every class that a walk comes to has the rest of the chain for its own. -/
theorem ancestry_of_walk
    {passed names : List String}
    {current name : String}
    {steps : Nat}
    {complete : Bool}
    (distinct : (current :: passed).Nodup)
    (known : ∀ name ∈ passed, (hierarchy.lookup name).isSome)
    (enough : passed.length + steps = hierarchy.size + 1)
    (walked : hierarchy.walk passed current steps = .chain names complete)
    (member : name ∈ names)
    (ahead : name ∉ passed) :
    ∃ front rest,
      names = front ++ rest ∧ hierarchy.ancestry name = .chain rest complete := by
  by_cases here : name = current
  · subst here
    have longer := walk_eq_of_le distinct known (by omega)
      (show steps ≤ hierarchy.size + 1 by omega)
    have whole :
        hierarchy.walk ([] ++ passed) name (hierarchy.size + 1) = .chain names complete :=
      longer.trans walked
    obtain ⟨rest, shape, walked⟩ := walk_of_append whole
    exact ⟨passed.reverse, rest, shape, walked⟩
  · have stopped (shape : names = (current :: passed).reverse) : False := by
      subst shape
      simp [here, ahead] at member
    cases steps with
    | zero =>
        cases walked
        exact (stopped rfl).elim
    | succ steps =>
        unfold walk at walked
        split at walked
        · cases walked
          exact (stopped rfl).elim
        · split at walked
          · cases walked
            exact (stopped rfl).elim
          · rename_i info found
            split at walked
            · cases walked
            · split at walked
              · cases walked
                exact (stopped rfl).elim
              · rename_i parent _
                split at walked
                · cases walked
                · rename_i fresh
                  refine ancestry_of_walk ?_ ?_ ?_ walked member ?_
                  · exact List.nodup_cons.mpr ⟨by simpa using fresh, distinct⟩
                  · intro other earlier
                    rcases List.mem_cons.mp earlier with rfl | earlier
                    · exact Option.isSome_iff_exists.mpr ⟨info, found⟩
                    · exact known other earlier
                  · rw [List.length_cons]
                    omega
                  · simp [here, ahead]

/-! ## Chains -/

/-- A chain begins with its class and has no name twice. -/
theorem nodup_of_ancestry
    {name : String}
    {names : List String}
    {complete : Bool}
    (chained : hierarchy.ancestry name = .chain names complete) :
    names.Nodup ∧ ∃ rest, names = name :: rest :=
  nodup_of_walk (List.nodup_singleton name) chained

/-- The chain of a class on a chain is the rest of that chain, beginning with the class. -/
theorem ancestry_of_mem
    {start name : String}
    {names : List String}
    {complete : Bool}
    (chained : hierarchy.ancestry start = .chain names complete)
    (member : name ∈ names) :
    ∃ front rest,
      names = front ++ name :: rest ∧
        hierarchy.ancestry name = .chain (name :: rest) complete := by
  obtain ⟨front, back, shape, behind⟩ :=
    ancestry_of_walk (List.nodup_singleton start) (by simp) (by simp) chained member (by simp)
  obtain ⟨_, rest, rfl⟩ := nodup_of_ancestry behind
  exact ⟨front, rest, shape, behind⟩

/-- The root has nothing above it. -/
theorem ancestry_objectName : hierarchy.ancestry objectName = .chain [objectName] true := by
  simp [ancestry, walk]

end Hierarchy
end JvmClass
