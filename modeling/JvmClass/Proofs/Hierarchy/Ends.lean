import JvmClass.Proofs.Hierarchy.Ancestry

namespace JvmClass

/-!
# Where chains of superclasses end

A walk up from a class that does not go round in a circle ends at the root or at
a class without a superclass, at a class that is not known, or at an interface.
Each class has one superclass, so two chains that meet stay together: complete
chains share a class exactly if they end at the same one.

Only the root should have no superclass, but neither a table nor a class file is
held to that, so there are complete chains that share nothing.
-/

namespace Hierarchy

/-! ## Ends -/

/-- A complete chain ends here: at the root, or at a class that has no superclass. -/
def Tops (hierarchy : Hierarchy) (name : String) : Prop :=
  name = objectName ∨
    ∃ info,
      hierarchy.lookup name = some info ∧ info.isInterface = false ∧ info.superName = none

/-- A class that the hierarchy does not know. -/
def Unknown (hierarchy : Hierarchy) (name : String) : Prop :=
  name ≠ objectName ∧ hierarchy.lookup name = none

/-- An interface of the hierarchy. -/
def IsInterface (hierarchy : Hierarchy) (name : String) : Prop :=
  name ≠ objectName ∧ ∃ info, hierarchy.lookup name = some info ∧ info.isInterface = true

variable {hierarchy : Hierarchy} {name : String}

theorem Tops.not_extends
    {parent : String}
    (tops : hierarchy.Tops name) :
    ¬ hierarchy.Extends name parent := by
  rintro ⟨notRoot, info, found, _, named⟩
  rcases tops with isRoot | ⟨other, otherFound, _, parentless⟩
  · exact notRoot isRoot
  · rw [found] at otherFound
    cases otherFound
    rw [named] at parentless
    cases parentless

theorem Unknown.not_extends
    {parent : String}
    (unknown : hierarchy.Unknown name) :
    ¬ hierarchy.Extends name parent := by
  rintro ⟨_, info, found, _⟩
  rw [unknown.2] at found
  cases found

theorem IsInterface.not_extends
    {parent : String}
    (isInterface : hierarchy.IsInterface name) :
    ¬ hierarchy.Extends name parent := by
  rintro ⟨_, info, found, noInterface, _⟩
  obtain ⟨_, other, otherFound, is⟩ := isInterface
  rw [found] at otherFound
  cases otherFound
  rw [noInterface] at is
  cases is

theorem IsInterface.not_tops
    (isInterface : hierarchy.IsInterface name) :
    ¬ hierarchy.Tops name := by
  obtain ⟨notRoot, info, found, is⟩ := isInterface
  rintro (isRoot | ⟨other, otherFound, noInterface, _⟩)
  · exact notRoot isRoot
  · rw [found] at otherFound
    cases otherFound
    rw [noInterface] at is
    cases is

theorem IsInterface.not_unknown
    (isInterface : hierarchy.IsInterface name) :
    ¬ hierarchy.Unknown name := by
  obtain ⟨_, info, found, _⟩ := isInterface
  rintro ⟨_, unknown⟩
  rw [unknown] at found
  cases found

/-- Nothing but itself lies above a class that names no superclass. -/
theorem eq_of_reaches
    {last super : String}
    (ends : ∀ parent, ¬ hierarchy.Extends last parent)
    (reached : Relation.ReflTransGen hierarchy.Extends last super) :
    super = last := by
  rcases reached.cases_head with same | ⟨parent, named, _⟩
  · exact same.symm
  · exact absurd named (ends parent)

/-- Superclasses lead from a class to one end only. -/
theorem eq_of_reaches_ends
    {first second : String}
    (firstReached : Relation.ReflTransGen hierarchy.Extends name first)
    (firstEnds : ∀ parent, ¬ hierarchy.Extends first parent)
    (secondReached : Relation.ReflTransGen hierarchy.Extends name second)
    (secondEnds : ∀ parent, ¬ hierarchy.Extends second parent) :
    first = second := by
  rcases firstReached.total_of_right_unique extends_unique secondReached with up | down
  · exact (eq_of_reaches firstEnds up).symm
  · exact eq_of_reaches secondEnds down

/-! ## What walks end at -/

/-- One turn of a walk: what it ends with, or the superclass that it goes on to. -/
def turn (hierarchy : Hierarchy) (passed : List String) (current : String) : Ancestry ⊕ String :=
  if current = objectName then
    .inl (.chain (current :: passed).reverse true)
  else
    match hierarchy.lookup current with
    | none => .inl (.chain (current :: passed).reverse false)
    | some info =>
        if info.isInterface then
          .inl .interfaceMet
        else
          match info.superName with
          | none => .inl (.chain (current :: passed).reverse true)
          | some parent =>
              if (current :: passed).contains parent then .inl .circular else .inr parent

/-- A walk that has a step left takes a turn. -/
theorem walk_succ
    (hierarchy : Hierarchy)
    (passed : List String)
    (current : String)
    (steps : Nat) :
    hierarchy.walk passed current (steps + 1) =
      (hierarchy.turn passed current).elim id
        fun parent => hierarchy.walk (current :: passed) parent steps := by
  rw [walk, turn]
  by_cases isRoot : current = objectName
  · rw [if_pos isRoot, if_pos isRoot]
    rfl
  · rw [if_neg isRoot, if_neg isRoot]
    rcases hierarchy.lookup current with _ | ⟨_ | parent, _ | _⟩
    · rfl
    · rfl
    · rfl
    · by_cases again : (current :: passed).contains parent = true
      · simp only [Bool.false_eq_true, if_false, if_pos again, Sum.elim_inl, id]
      · simp only [Bool.false_eq_true, if_false, if_neg again, Sum.elim_inr]
    · rfl

/-- A turn stops at an end, or goes on to a superclass unless the walk has passed that. -/
theorem cases_of_turn
    (hierarchy : Hierarchy)
    (passed : List String)
    (current : String) :
    hierarchy.Tops current ∧
        hierarchy.turn passed current = .inl (.chain (current :: passed).reverse true) ∨
      hierarchy.Unknown current ∧
        hierarchy.turn passed current = .inl (.chain (current :: passed).reverse false) ∨
      hierarchy.IsInterface current ∧ hierarchy.turn passed current = .inl .interfaceMet ∨
      ∃ parent,
        hierarchy.Extends current parent ∧
          (parent ∈ current :: passed ∧ hierarchy.turn passed current = .inl .circular ∨
            parent ∉ current :: passed ∧ hierarchy.turn passed current = .inr parent) := by
  unfold turn
  split
  · rename_i isRoot
    exact .inl ⟨.inl isRoot, rfl⟩
  · rename_i notRoot
    split
    · rename_i missing
      exact .inr (.inl ⟨⟨notRoot, missing⟩, rfl⟩)
    · rename_i info found
      split
      · rename_i isInterface
        exact .inr (.inr (.inl ⟨⟨notRoot, info, found, isInterface⟩, rfl⟩))
      · rename_i noInterface
        rw [Bool.not_eq_true] at noInterface
        split
        · rename_i parentless
          exact .inl ⟨.inr ⟨info, found, noInterface, parentless⟩, rfl⟩
        · rename_i parent named
          refine .inr (.inr (.inr ⟨parent, ⟨notRoot, info, found, noInterface, named⟩, ?_⟩))
          split
          · rename_i again
            exact .inl ⟨by simpa using again, rfl⟩
          · rename_i fresh
            exact .inr ⟨by simpa using fresh, rfl⟩

/-- A step of a walk stops at an end, or goes on to a superclass unless it has passed that. -/
theorem cases_of_walk
    (hierarchy : Hierarchy)
    (passed : List String)
    (current : String)
    (steps : Nat) :
    hierarchy.Tops current ∧
        hierarchy.walk passed current (steps + 1) = .chain (current :: passed).reverse true ∨
      hierarchy.Unknown current ∧
        hierarchy.walk passed current (steps + 1) = .chain (current :: passed).reverse false ∨
      hierarchy.IsInterface current ∧
        hierarchy.walk passed current (steps + 1) = .interfaceMet ∨
      ∃ parent,
        hierarchy.Extends current parent ∧
          (parent ∈ current :: passed ∧ hierarchy.walk passed current (steps + 1) = .circular ∨
            parent ∉ current :: passed ∧
              hierarchy.walk passed current (steps + 1) =
                hierarchy.walk (current :: passed) parent steps) := by
  rw [walk_succ]
  rcases cases_of_turn hierarchy passed current with
    ⟨tops, stops⟩ | ⟨unknown, stops⟩ | ⟨isInterface, stops⟩ |
      ⟨parent, named, ⟨again, stops⟩ | ⟨fresh, goesOn⟩⟩
  · exact .inl ⟨tops, by rw [stops]; rfl⟩
  · exact .inr (.inl ⟨unknown, by rw [stops]; rfl⟩)
  · exact .inr (.inr (.inl ⟨isInterface, by rw [stops]; rfl⟩))
  · exact .inr (.inr (.inr ⟨parent, named, .inl ⟨again, by rw [stops]; rfl⟩⟩))
  · exact .inr (.inr (.inr ⟨parent, named, .inr ⟨fresh, by rw [goesOn]; rfl⟩⟩))

/-- A walk that gives a chain ends at its last class and has passed all there are. -/
theorem exists_end_of_walk
    {passed names : List String}
    {current : String}
    {steps : Nat}
    {complete : Bool}
    (distinct : (current :: passed).Nodup)
    (known : ∀ name ∈ passed, (hierarchy.lookup name).isSome)
    (enough : hierarchy.size < passed.length + steps)
    (walked : hierarchy.walk passed current steps = .chain names complete) :
    ∃ last,
      names.getLast? = some last ∧
        Relation.ReflTransGen hierarchy.Extends current last ∧
          (complete = true → hierarchy.Tops last) ∧
            (complete = false → hierarchy.Unknown last) ∧
              ∀ super, Relation.ReflTransGen hierarchy.Extends current super → super ∈ names := by
  induction steps generalizing passed current with
  | zero =>
      have few := length_le_size (List.nodup_cons.mp distinct).2 known
      omega
  | succ steps inductionHypothesis =>
      rcases cases_of_walk hierarchy passed current steps with
        ⟨tops, stops⟩ | ⟨unknown, stops⟩ | ⟨_, stops⟩ |
          ⟨parent, named, ⟨_, stops⟩ | ⟨fresh, goesOn⟩⟩
      · rw [stops] at walked
        cases walked
        refine ⟨current, by simp, .refl, fun _ => tops, nofun, fun super reached => ?_⟩
        simp [eq_of_reaches (fun _ => tops.not_extends) reached]
      · rw [stops] at walked
        cases walked
        refine ⟨current, by simp, .refl, nofun, fun _ => unknown, fun super reached => ?_⟩
        simp [eq_of_reaches (fun _ => unknown.not_extends) reached]
      · rw [stops] at walked
        cases walked
      · rw [stops] at walked
        cases walked
      · obtain ⟨_, info, found, _⟩ := id named
        rw [goesOn] at walked
        have further : (parent :: current :: passed).Nodup := List.nodup_cons.mpr ⟨fresh, distinct⟩
        obtain ⟨last, ending, reached, tops, unknown, all⟩ :=
          inductionHypothesis further (by simpa [found] using known)
            (by rw [List.length_cons]; omega) walked
        refine ⟨last, ending, .head named reached, tops, unknown, fun super above => ?_⟩
        rcases above.cases_head with rfl | ⟨next, step, beyond⟩
        · obtain ⟨_, rest, shape⟩ := nodup_of_walk further walked
          simp [shape]
        · exact all super (extends_unique step named ▸ beyond)

/-- A walk that meets an interface has been led to one. -/
theorem exists_interface_of_walk
    {passed : List String}
    {current : String}
    {steps : Nat}
    (walked : hierarchy.walk passed current steps = .interfaceMet) :
    ∃ last,
      Relation.ReflTransGen hierarchy.Extends current last ∧ hierarchy.IsInterface last := by
  induction steps generalizing passed current with
  | zero => cases walked
  | succ steps inductionHypothesis =>
      rcases cases_of_walk hierarchy passed current steps with
        ⟨_, stops⟩ | ⟨_, stops⟩ | ⟨isInterface, _⟩ | ⟨parent, named, ⟨_, stops⟩ | ⟨_, goesOn⟩⟩
      · cases stops.symm.trans walked
      · cases stops.symm.trans walked
      · exact ⟨current, .refl, isInterface⟩
      · cases stops.symm.trans walked
      · obtain ⟨last, reached, isInterface⟩ := inductionHypothesis (goesOn.symm.trans walked)
        exact ⟨last, .head named reached, isInterface⟩

/-- A walk that comes back to a class has gone round in a circle. -/
theorem exists_circle_of_walk
    {passed : List String}
    {current : String}
    {steps : Nat}
    (below : ∀ name ∈ passed, Relation.ReflTransGen hierarchy.Extends name current)
    (walked : hierarchy.walk passed current steps = .circular) :
    ∃ super, Relation.TransGen hierarchy.Extends super super := by
  induction steps generalizing passed current with
  | zero => cases walked
  | succ steps inductionHypothesis =>
      have belowHere :
          ∀ name ∈ current :: passed, Relation.ReflTransGen hierarchy.Extends name current :=
        List.forall_mem_cons.mpr ⟨.refl, below⟩
      rcases cases_of_walk hierarchy passed current steps with
        ⟨_, stops⟩ | ⟨_, stops⟩ | ⟨_, stops⟩ | ⟨parent, named, ⟨again, _⟩ | ⟨_, goesOn⟩⟩
      · cases stops.symm.trans walked
      · cases stops.symm.trans walked
      · cases stops.symm.trans walked
      · exact ⟨parent, .tail' (belowHere parent again) named⟩
      · exact inductionHypothesis (fun name member => (belowHere name member).tail named)
          (goesOn.symm.trans walked)

/-! ## Chains and their ends -/

/-- The chain of a class is all that its superclasses lead to, up to an end. -/
theorem exists_end_of_ancestry
    {names : List String}
    {complete : Bool}
    (chained : hierarchy.ancestry name = .chain names complete) :
    ∃ last,
      names.getLast? = some last ∧
        Relation.ReflTransGen hierarchy.Extends name last ∧
          (complete = true → hierarchy.Tops last) ∧
            (complete = false → hierarchy.Unknown last) ∧
              ∀ super, super ∈ names ↔ Relation.ReflTransGen hierarchy.Extends name super := by
  obtain ⟨last, ending, reached, tops, unknown, all⟩ :=
    exists_end_of_walk (List.nodup_singleton name) (by simp) (by simp) chained
  exact ⟨last, ending, reached, tops, unknown, fun super =>
    ⟨reaches_of_ancestry chained, all super⟩⟩

/-- Chains meet exactly if they end at the same class. -/
theorem exists_shared_iff
    {left right leftEnd rightEnd : String}
    (leftReached : Relation.ReflTransGen hierarchy.Extends left leftEnd)
    (leftEnds : ∀ parent, ¬ hierarchy.Extends leftEnd parent)
    (rightReached : Relation.ReflTransGen hierarchy.Extends right rightEnd)
    (rightEnds : ∀ parent, ¬ hierarchy.Extends rightEnd parent) :
    (∃ super,
        Relation.ReflTransGen hierarchy.Extends left super ∧
          Relation.ReflTransGen hierarchy.Extends right super) ↔
      leftEnd = rightEnd := by
  -- Where the end of a chain does not lie above a class, the class lies above the end.
  have onward {start last super : String}
      (reached : Relation.ReflTransGen hierarchy.Extends start last)
      (ends : ∀ parent, ¬ hierarchy.Extends last parent)
      (above : Relation.ReflTransGen hierarchy.Extends start super) :
      Relation.ReflTransGen hierarchy.Extends super last := by
    rcases above.total_of_right_unique extends_unique reached with up | down
    · exact up
    · exact eq_of_reaches ends down ▸ .refl
  constructor
  · rintro ⟨super, onLeft, onRight⟩
    exact eq_of_reaches_ends (onward leftReached leftEnds onLeft) leftEnds
      (onward rightReached rightEnds onRight) rightEnds
  · rintro rfl
    exact ⟨leftEnd, leftReached, rightReached⟩

/-- Two classes with chains have something in common exactly if the chains share a class. -/
theorem commonClass?_isSome_iff
    {left right : String}
    {leftNames rightNames : List String}
    {leftComplete rightComplete : Bool}
    (leftChain : hierarchy.ancestry left = .chain leftNames leftComplete)
    (rightChain : hierarchy.ancestry right = .chain rightNames rightComplete) :
    (hierarchy.commonClass? left right).isSome ↔ ∃ name ∈ leftNames, name ∈ rightNames := by
  simp only [commonClass?, leftChain, rightChain, List.find?_isSome, List.contains_eq_mem,
    decide_eq_true_eq]
  exact ⟨fun ⟨name, onRight, onLeft⟩ => ⟨name, onLeft, onRight⟩,
    fun ⟨name, onLeft, onRight⟩ => ⟨name, onRight, onLeft⟩⟩

/--
Two complete chains end at the root or at classes without a superclass.  They
share a class, which the two classes then have in common, exactly if they end at
the same one.
-/
theorem shared_iff_of_complete
    {left right : String}
    {leftNames rightNames : List String}
    (leftChain : hierarchy.ancestry left = .chain leftNames true)
    (rightChain : hierarchy.ancestry right = .chain rightNames true) :
    ∃ leftEnd rightEnd,
      leftNames.getLast? = some leftEnd ∧
        rightNames.getLast? = some rightEnd ∧
          hierarchy.Tops leftEnd ∧
            hierarchy.Tops rightEnd ∧
              ((∃ name ∈ leftNames, name ∈ rightNames) ↔ leftEnd = rightEnd) ∧
                ((hierarchy.commonClass? left right).isSome ↔ leftEnd = rightEnd) := by
  obtain ⟨leftEnd, leftLast, leftReached, leftTops, _, leftAll⟩ :=
    exists_end_of_ancestry leftChain
  obtain ⟨rightEnd, rightLast, rightReached, rightTops, _, rightAll⟩ :=
    exists_end_of_ancestry rightChain
  have shared : (∃ name ∈ leftNames, name ∈ rightNames) ↔ leftEnd = rightEnd := by
    simp only [leftAll, rightAll]
    exact exists_shared_iff leftReached (fun _ => (leftTops rfl).not_extends) rightReached
      fun _ => (rightTops rfl).not_extends
  exact ⟨leftEnd, rightEnd, leftLast, rightLast, leftTops rfl, rightTops rfl, shared,
    (commonClass?_isSome_iff leftChain rightChain).trans shared⟩

/-- Classes below one another, an interface, and a class of which the superclass is not known. -/
def shapes : Hierarchy :=
  [.table
    ⟨[("Base", .aClass objectName), ("A", .aClass "Base"), ("B", .aClass "Base"),
      ("C", .aClass "A"), ("Shape", .anInterface), ("D", .aClass "Unknown")]⟩]

/-- The chains of two classes below one superclass end at the root and share that superclass. -/
theorem shared_of_shapes :
    shapes.ancestry "C" = .chain ["C", "A", "Base", objectName] true ∧
      shapes.ancestry "B" = .chain ["B", "Base", objectName] true ∧
        ∃ leftEnd rightEnd,
          ["C", "A", "Base", objectName].getLast? = some leftEnd ∧
            ["B", "Base", objectName].getLast? = some rightEnd ∧
              shapes.Tops leftEnd ∧
                shapes.Tops rightEnd ∧
                  ((∃ name ∈ ["C", "A", "Base", objectName], name ∈ ["B", "Base", objectName]) ↔
                    leftEnd = rightEnd) ∧
                    ((shapes.commonClass? "C" "B").isSome ↔ leftEnd = rightEnd) := by
  have left : shapes.ancestry "C" = .chain ["C", "A", "Base", objectName] true := by decide
  have right : shapes.ancestry "B" = .chain ["B", "Base", objectName] true := by decide
  exact ⟨left, right, shared_iff_of_complete left right⟩

/-- The chain of a class without a superclass is complete and does not meet the root. -/
theorem not_shared_of_parentless :
    ∃ (hierarchy : Hierarchy) (leftNames rightNames : List String),
      hierarchy.ancestry "A" = .chain leftNames true ∧
        hierarchy.ancestry objectName = .chain rightNames true ∧
          leftNames ≠ [] ∧
            rightNames ≠ [] ∧
              (∀ name ∈ leftNames, name ∉ rightNames) ∧
                hierarchy.commonSuperclass? "A" objectName = none :=
  ⟨[.table ⟨[("A", ⟨none, false⟩)]⟩], ["A"], [objectName], by decide, by decide, by decide,
    by decide, by decide, by decide +kernel⟩

end Hierarchy
end JvmClass
