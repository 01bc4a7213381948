import JvmClass.Proofs.Pool.Intern

namespace JvmClass.Pool

/-!
# Any number of constants

However many constants a pool is asked for, the entries that it began with stay
where they are, every reference leads to an entry of the right kind, and each
number that was given names its constant to the end.  An entry is appended only
for a constant that stood nowhere, so asking again changes nothing.
-/

/-- The number of a constant. -/
def intern : Constant → StateM Pool UInt16
  | .utf8 text => internText text
  | .classRef name => internClass name
  | .string text => internString text
  | .integer value => internInteger value
  | .long value => internLong value
  | .nameAndType name descriptor => internNameAndType name descriptor
  | .member kind names => internMember kind names

/-- The numbers of constants that are asked for one after another. -/
def internAll (constants : List Constant) : StateM Pool (List UInt16) :=
  constants.mapM intern

/-- A pool that constants can be asked for first, with the entries that it begins with. -/
inductive Begins : Array Entry → Pool → Prop
  | empty : Begins #[.unusable] .empty
  | adopted
      {entries : Array Entry}
      {pool : Pool}
      (first : entries.toList.head? = some .unusable)
      (accepted : ofEntries entries = .ok pool) :
      Begins entries pool

/--
What asking for one constant does: a constant that stands somewhere is found, and
what is appended are constants that stood nowhere, and unusable entries behind the
wide ones.
-/
structure Interned
    (constant : Constant)
    (pool : Pool)
    (number : UInt16)
    (after : Pool) : Prop where
  stands : constant.StandsAt after.entries number
  found : (∃ other, constant.StandsAt pool.entries other) → after = pool
  fresh :
    ∀ (place : UInt16) (held : Entry),
      pool.size ≤ place.toNat → Entry.at? after.entries place = .ok held →
        ∃ added : Constant,
          added.StandsAt after.entries place ∧ ∀ other, ¬ added.StandsAt pool.entries other
  filled :
    ∀ (place : Nat) (held : Entry),
      pool.size ≤ place → after.entries[place]? = some held → held.isWide = true →
        after.entries[place + 1]? = some .unusable

theorem advances_intern
    {pool after : Pool}
    {constant : Constant}
    {number : UInt16}
    (coherent : pool.Coherent)
    (interned : intern constant pool = (number, after))
    (fits : after.size ≤ 2 ^ 16) :
    Advances pool after ∧ constant.StandsAt after.entries number := by
  cases constant with
  | utf8 text => exact advances_internText coherent interned fits
  | classRef name => exact advances_internClass coherent interned fits
  | string text => exact advances_internString coherent interned fits
  | integer value => exact advances_internInteger coherent interned fits
  | long value => exact advances_internLong coherent interned fits
  | nameAndType name descriptor => exact advances_internNameAndType coherent interned fits
  | member kind names => exact advances_internMember coherent interned fits

theorem extends_intern
    (constant : Constant)
    (pool : Pool) :
    Entry.Extends pool.entries (intern constant pool).2.entries := by
  cases constant with
  | utf8 text => exact extends_internText text pool
  | classRef name => exact extends_internClass name pool
  | string text => exact extends_internString text pool
  | integer value | long value => exact extends_internWith (.refl _)
  | nameAndType name descriptor => exact extends_internNameAndType name descriptor pool
  | member kind names => exact extends_internMember kind names pool

theorem exists_intern_eq (constant : Constant) :
    ∃ build, intern constant = internWith constant build := by
  cases constant <;>
    simp only [intern, internText, internClass, internString, internInteger, internLong,
      internNameAndType, internMember] <;>
    exact ⟨_, rfl⟩

/-- A constant of the index is found at its number. -/
theorem intern_of_known
    {pool : Pool}
    {constant : Constant}
    {number : UInt16}
    (known : pool.index[constant]? = some number) :
    intern constant pool = (number, pool) := by
  obtain ⟨build, shape⟩ := exists_intern_eq constant
  simp [shape, internWith, known]

/-- A constant that was asked for is in the index. -/
theorem known_of_intern
    {pool after : Pool}
    {constant : Constant}
    {number : UInt16}
    (interned : intern constant pool = (number, after)) :
    after.index[constant]? = some number := by
  obtain ⟨build, shape⟩ := exists_intern_eq constant
  rw [shape, internWith] at interned
  split at interned
  · rename_i known
    cases interned
    exact known
  · cases interned
    exact getElem?_index_append.trans (if_pos rfl)

/-- What asking for one constant does to a pool whose index misses none. -/
theorem interned_of_intern
    {pool after : Pool}
    {constant : Constant}
    {number : UInt16}
    (coherent : pool.Coherent)
    (complete : pool.Complete)
    (interned : intern constant pool = (number, after))
    (fits : after.size ≤ 2 ^ 16) :
    Interned constant pool number after := by
  obtain ⟨advances, stands⟩ := advances_intern coherent interned fits
  constructor
  case stands => exact stands
  case found =>
    rintro ⟨other, otherStands⟩
    obtain ⟨place, known⟩ := complete constant other otherStands
    have same := interned.symm.trans (intern_of_known known)
    cases same
    rfl
  case fresh =>
    intro place held new heldAt
    obtain ⟨added, addedStands⟩ := advances.appended place held new heldAt
    refine ⟨added, addedStands, ?_⟩
    intro other otherStands
    obtain rfl : other = place :=
      advances.single complete added place other new addedStands
        (otherStands.extend advances.kept)
    have old : other.toNat < pool.size := lt_size_of_standsAt otherStands
    omega
  case filled => exact advances.filled

/-! ## One constant after another -/

theorem internAll_cons
    (constant : Constant)
    (rest : List Constant)
    (pool : Pool) :
    internAll (constant :: rest) pool =
      ((intern constant pool).1 :: (internAll rest (intern constant pool).2).1,
        (internAll rest (intern constant pool).2).2) := by
  simp only [internAll, List.mapM_cons]
  rfl

theorem extends_internAll
    (constants : List Constant)
    (pool : Pool) :
    Entry.Extends pool.entries (internAll constants pool).2.entries := by
  induction constants generalizing pool with
  | nil => exact .refl _
  | cons constant rest inductionHypothesis =>
      rw [internAll_cons]
      exact (extends_intern constant pool).trans (inductionHypothesis _)

/-- What asking for constants one after another does to a pool, and does for each of them. -/
theorem advances_internAll
    {pool : Pool}
    {constants : List Constant}
    (coherent : pool.Coherent)
    (complete : pool.Complete)
    (fits : (internAll constants pool).2.size ≤ 2 ^ 16) :
    Advances pool (internAll constants pool).2 ∧
      ∀ (earlier later : List Constant) (constant : Constant),
        constants = earlier ++ constant :: later →
          ∃ number next,
            (internAll constants pool).1[earlier.length]? = some number ∧
              intern constant (internAll earlier pool).2 = (number, next) ∧
                Interned constant (internAll earlier pool).2 number next ∧
                  Advances next (internAll constants pool).2 := by
  induction constants generalizing pool with
  | nil => exact ⟨.refl coherent, by simp⟩
  | cons head rest inductionHypothesis =>
      rcases interned : intern head pool with ⟨number, next⟩
      have run := internAll_cons head rest pool
      rw [interned] at run
      simp only [run] at fits ⊢
      have nextFits : next.size ≤ 2 ^ 16 :=
        Nat.le_trans (extends_internAll rest next).size_le fits
      have advances := (advances_intern coherent interned nextFits).1
      obtain ⟨advancesLater, each⟩ :=
        inductionHypothesis advances.coherent (advances.complete complete) fits
      refine ⟨advances.trans advancesLater, ?_⟩
      rintro (_ | ⟨first, earlier⟩) later constant shape
      · cases shape
        exact
          ⟨number, next, rfl, interned, interned_of_intern coherent complete interned nextFits,
            advancesLater⟩
      · obtain ⟨rfl, others⟩ := List.cons.inj shape
        have start := internAll_cons head earlier pool
        rw [interned] at start
        rw [start]
        exact each earlier later constant others

/-- The pool of the unusable entry is what its list of entries gives. -/
theorem ofEntries_unusable : ofEntries #[.unusable] = .ok .empty :=
  rfl

theorem Begins.ofEntries
    {entries : Array Entry}
    {pool : Pool}
    (begins : Begins entries pool) :
    entries.toList.head? = some .unusable ∧ ofEntries entries = .ok pool := by
  cases begins with
  | empty => exact ⟨rfl, ofEntries_unusable⟩
  | adopted first accepted => exact ⟨first, accepted⟩

/-- A pool that constants can be asked for first holds together, and its index misses none. -/
theorem Begins.coherent_complete
    {entries : Array Entry}
    {pool : Pool}
    (begins : Begins entries pool)
    (fits : pool.size ≤ 2 ^ 16) :
    pool.entries = entries ∧ pool.Coherent ∧ pool.Complete := by
  obtain ⟨first, accepted⟩ := begins.ofEntries
  have same := entries_of_ofEntries accepted
  exact
    ⟨same, coherent_of_ofEntries (same ▸ fits) accepted, complete_of_ofEntries first accepted⟩

/-- Every pool that constants were asked for holds together. -/
theorem Begins.coherent_of_internAll
    {entries : Array Entry}
    {pool after : Pool}
    {constants : List Constant}
    {numbers : List UInt16}
    (begins : Begins entries pool)
    (run : internAll constants pool = (numbers, after))
    (short : after.size ≤ 2 ^ 16) :
    after.Coherent := by
  have fits : (internAll constants pool).2.size ≤ 2 ^ 16 := by rwa [run]
  obtain ⟨_, coherent, complete⟩ :=
    begins.coherent_complete (Nat.le_trans (extends_internAll constants pool).size_le fits)
  have advances := (advances_internAll coherent complete fits).1
  rw [run] at advances
  exact advances.coherent

/--
Whatever constants a pool is asked for one after another, as long as its numbers
have sixteen bits: the entries that it began with come first and are the same, every
reference leads to an entry of the right kind, and each number names its constant,
which asking again gives without a change.  No entry was appended for a constant that
stood somewhere, and behind each appended wide entry stands an unusable one.
-/
theorem interned_of_internAll
    {entries : Array Entry}
    {pool after : Pool}
    {constants : List Constant}
    {numbers : List UInt16}
    (begins : Begins entries pool)
    (run : internAll constants pool = (numbers, after))
    (short : after.size ≤ 65535) :
    entries.toList <+: after.entries.toList ∧
      (∀ entry ∈ after.entries.toList, Entry.check after.entries entry = .ok ()) ∧
        ∀ (earlier later : List Constant) (constant : Constant),
          constants = earlier ++ constant :: later →
            ∃ number next,
              numbers[earlier.length]? = some number ∧
                constant.StandsAt after.entries number ∧
                  intern constant after = (number, after) ∧
                    intern constant (internAll earlier pool).2 = (number, next) ∧
                      Interned constant (internAll earlier pool).2 number next := by
  have fits : (internAll constants pool).2.size ≤ 2 ^ 16 := by
    rw [run]
    show after.size ≤ 2 ^ 16
    omega
  obtain ⟨same, coherent, complete⟩ :=
    begins.coherent_complete (Nat.le_trans (extends_internAll constants pool).size_le fits)
  obtain ⟨advances, each⟩ := advances_internAll coherent complete fits
  rw [run] at advances each
  refine ⟨same ▸ advances.kept.isPrefix, advances.coherent.checked, ?_⟩
  intro earlier later constant shape
  obtain ⟨number, next, numbered, interned, does, later⟩ := each earlier later constant shape
  have known := later.indexed constant number (known_of_intern interned)
  exact
    ⟨number, next, numbered, does.stands.extend later.kept, intern_of_known known, interned, does⟩

/-- A class is found under its name, and a `long` is appended once. -/
theorem interned_of_class_and_long :
    ∃ pool after,
      Begins #[.unusable, .utf8 "A", .classRef 1] pool ∧
        internAll [.classRef "A", .long 7, .long 7] pool = ([2, 3, 3], after) ∧
          after.size ≤ 65535 ∧
            (Constant.long 7).StandsAt after.entries 3 ∧
              after.entries = #[.unusable, .utf8 "A", .classRef 1, .long 7, .unusable] := by
  obtain ⟨pool, accepted, numbers, entries⟩ :
      ∃ pool,
        ofEntries #[.unusable, .utf8 "A", .classRef 1] = .ok pool ∧
          (internAll [.classRef "A", .long 7, .long 7] pool).1 = [2, 3, 3] ∧
            (internAll [.classRef "A", .long 7, .long 7] pool).2.entries =
              #[.unusable, .utf8 "A", .classRef 1, .long 7, .unusable] :=
    ⟨_, rfl, by decide +kernel, by decide +kernel⟩
  have begins : Begins #[.unusable, .utf8 "A", .classRef 1] pool := .adopted rfl accepted
  have run :
      internAll [.classRef "A", .long 7, .long 7] pool =
        ([2, 3, 3], (internAll [.classRef "A", .long 7, .long 7] pool).2) :=
    Prod.ext numbers rfl
  have short : (internAll [.classRef "A", .long 7, .long 7] pool).2.size ≤ 65535 := by
    rw [size, entries]
    decide
  obtain ⟨_, _, each⟩ := interned_of_internAll begins run short
  obtain ⟨number, _, numbered, stands, _⟩ := each [.classRef "A"] [.long 7] (.long 7) rfl
  obtain rfl : number = 3 := (Option.some.inj numbered).symm
  exact ⟨pool, _, begins, run, short, stands, entries⟩

end JvmClass.Pool
