import JvmClass.Pool.Intern
import JvmClass.Proofs.Pool.Lookup
import Mathlib.Algebra.Group.Nat.Defs
import Std.Data.TreeMap.Lemmas

namespace JvmClass

/-!
# What interning gives

The index of a pool only names numbers at which the constant really stands.
Interning keeps this, moves no entry, and leaves a pool alone that knows the
constant already.
-/

/-- The entry of a number is this constant, with every reference resolved. -/
def Constant.StandsAt
    (entries : Array Entry)
    (number : UInt16) : Constant → Prop
  | .utf8 text => Entry.textAt entries number = .ok text
  | .classRef name => Entry.classNameAt entries number = .ok name
  | .string text =>
      ∃ place, Entry.at? entries number = .ok (.string place) ∧ Entry.textAt entries place = .ok text
  | .integer value => Entry.at? entries number = .ok (.integer value)
  | .long value => Entry.at? entries number = .ok (.long value)
  | .nameAndType name descriptor => Entry.nameAndTypeAt entries number = .ok (name, descriptor)
  | .member kind names =>
      (∃ owner pair, Entry.at? entries number = .ok (.member kind owner pair)) ∧
        Entry.memberAt entries number = .ok names

theorem Constant.StandsAt.extend
    {entries longer : Array Entry}
    {number : UInt16}
    {constant : Constant}
    (kept : Entry.Extends entries longer)
    (stands : constant.StandsAt entries number) :
    constant.StandsAt longer number := by
  cases constant with
  | utf8 text => exact kept.textAt stands
  | classRef name => exact kept.classNameAt stands
  | string text =>
      obtain ⟨place, held, found⟩ := stands
      exact ⟨place, kept.at? held, kept.textAt found⟩
  | integer value => exact kept.at? stands
  | long value => exact kept.at? stands
  | nameAndType name descriptor => exact kept.nameAndTypeAt stands
  | member kind names =>
      obtain ⟨⟨owner, pair, held⟩, found⟩ := stands
      exact ⟨⟨owner, pair, kept.at? held⟩, kept.memberAt found⟩

namespace Pool

/-- An entry is indexed under the constants that stand at its number. -/
theorem constantOf_eq_ok_iff
    {entries : Array Entry}
    {number : UInt16}
    {entry : Entry}
    {constant : Constant}
    (held : Entry.at? entries number = .ok entry) :
    constantOf entries number entry = .ok (some constant) ↔ constant.StandsAt entries number := by
  constructor
  · intro indexed
    cases entry with
    | utf8 text =>
        cases indexed
        exact Entry.textAt_eq_ok_iff.mpr held
    | integer value | long value =>
        cases indexed
        exact held
    | classRef place =>
        obtain ⟨name, found, same⟩ := bind_eq_ok_iff.mp indexed
        cases same
        exact Entry.classNameAt_eq_ok_iff.mpr ⟨place, held, found⟩
    | string place =>
        obtain ⟨text, found, same⟩ := bind_eq_ok_iff.mp indexed
        cases same
        exact ⟨place, held, found⟩
    | nameAndType name descriptor =>
        obtain ⟨names, found, same⟩ := bind_eq_ok_iff.mp indexed
        cases same
        exact found
    | member kind owner pair =>
        obtain ⟨names, found, same⟩ := bind_eq_ok_iff.mp indexed
        cases same
        exact ⟨⟨owner, pair, held⟩, found⟩
    | _ => cases indexed
  · intro stands
    cases constant with
    | utf8 text =>
        have same := held.symm.trans (Entry.textAt_eq_ok_iff.mp stands)
        cases same
        rfl
    | integer value | long value =>
        have same := held.symm.trans stands
        cases same
        rfl
    | classRef name =>
        obtain ⟨place, found, text⟩ := Entry.classNameAt_eq_ok_iff.mp stands
        have same := held.symm.trans found
        cases same
        exact bind_eq_ok_iff.mpr ⟨name, text, rfl⟩
    | string text =>
        obtain ⟨place, found, placed⟩ := stands
        have same := held.symm.trans found
        cases same
        exact bind_eq_ok_iff.mpr ⟨text, placed, rfl⟩
    | nameAndType name descriptor =>
        obtain ⟨first, second, found, _⟩ := Entry.nameAndTypeAt_eq_ok_iff.mp stands
        have same := held.symm.trans found
        cases same
        exact bind_eq_ok_iff.mpr ⟨(name, descriptor), stands, rfl⟩
    | member kind names =>
        obtain ⟨⟨owner, pair, found⟩, resolved⟩ := stands
        have same := held.symm.trans found
        cases same
        exact bind_eq_ok_iff.mpr ⟨names, resolved, rfl⟩

theorem exists_of_standsAt
    {entries : Array Entry}
    {number : UInt16}
    {constant : Constant}
    (stands : constant.StandsAt entries number) :
    ∃ entry, Entry.at? entries number = .ok entry := by
  cases constant with
  | utf8 text => exact ⟨_, Entry.textAt_eq_ok_iff.mp stands⟩
  | integer value | long value => exact ⟨_, stands⟩
  | classRef name =>
      obtain ⟨place, found, _⟩ := Entry.classNameAt_eq_ok_iff.mp stands
      exact ⟨_, found⟩
  | string text =>
      obtain ⟨place, found, _⟩ := stands
      exact ⟨_, found⟩
  | nameAndType name descriptor =>
      obtain ⟨first, second, found, _⟩ := Entry.nameAndTypeAt_eq_ok_iff.mp stands
      exact ⟨_, found⟩
  | member kind names =>
      obtain ⟨⟨owner, pair, found⟩, _⟩ := stands
      exact ⟨_, found⟩

/-- At one number stands one constant. -/
theorem eq_of_standsAt
    {entries : Array Entry}
    {number : UInt16}
    {constant other : Constant}
    (stands : constant.StandsAt entries number)
    (otherStands : other.StandsAt entries number) :
    constant = other := by
  obtain ⟨entry, held⟩ := exists_of_standsAt stands
  have same :=
    ((constantOf_eq_ok_iff held).mpr stands).symm.trans ((constantOf_eq_ok_iff held).mpr otherStands)
  cases same
  rfl

/-- What stands at a number of a list whose references are good stood there before it grew. -/
theorem standsAt_of_extends
    {entries longer : Array Entry}
    {number : UInt16}
    {entry : Entry}
    {constant : Constant}
    (kept : Entry.Extends entries longer)
    (held : Entry.at? entries number = .ok entry)
    (checked : Entry.check entries entry = .ok ())
    (stands : constant.StandsAt longer number) :
    constant.StandsAt entries number := by
  have heldLater := kept.at? held
  cases constant with
  | utf8 text =>
      have same := heldLater.symm.trans (Entry.textAt_eq_ok_iff.mp stands)
      cases same
      exact Entry.textAt_eq_ok_iff.mpr held
  | integer value | long value =>
      have same := heldLater.symm.trans stands
      cases same
      exact held
  | classRef name =>
      obtain ⟨place, found, named⟩ := Entry.classNameAt_eq_ok_iff.mp stands
      have same := heldLater.symm.trans found
      cases same
      obtain ⟨text, textFound⟩ := Entry.discard_eq_ok_iff.mp checked
      have same := (kept.textAt textFound).symm.trans named
      cases same
      exact Entry.classNameAt_eq_ok_iff.mpr ⟨place, held, textFound⟩
  | string text =>
      obtain ⟨place, found, placed⟩ := stands
      have same := heldLater.symm.trans found
      cases same
      obtain ⟨other, textFound⟩ := Entry.discard_eq_ok_iff.mp checked
      have same := (kept.textAt textFound).symm.trans placed
      cases same
      exact ⟨place, held, textFound⟩
  | nameAndType name descriptor =>
      obtain ⟨first, second, found, named, described⟩ := Entry.nameAndTypeAt_eq_ok_iff.mp stands
      have same := heldLater.symm.trans found
      cases same
      obtain ⟨text, textFound, others⟩ := bind_eq_ok_iff.mp checked
      obtain ⟨other, otherFound⟩ := Entry.discard_eq_ok_iff.mp others
      have same := (kept.textAt textFound).symm.trans named
      cases same
      have same := (kept.textAt otherFound).symm.trans described
      cases same
      exact Entry.nameAndTypeAt_eq_ok_iff.mpr ⟨first, second, held, textFound, otherFound⟩
  | member kind names =>
      obtain ⟨⟨owner, pair, found⟩, resolved⟩ := stands
      have same := heldLater.symm.trans found
      cases same
      obtain ⟨name, nameFound, others⟩ := bind_eq_ok_iff.mp checked
      obtain ⟨⟨text, descriptor⟩, pairFound⟩ := Entry.discard_eq_ok_iff.mp others
      have here : Entry.memberAt entries number = .ok ⟨name, text, descriptor⟩ :=
        Entry.memberAt_eq_ok_iff.mpr ⟨kind, owner, pair, held, nameFound, pairFound⟩
      have same := (kept.memberAt here).symm.trans resolved
      cases same
      exact ⟨⟨owner, pair, held⟩, here⟩

/-! ## The index -/

/-- The constant has a number in the index. -/
def Knows (pool : Pool) (constant : Constant) : Prop :=
  ∃ number, pool.index[constant]? = some number

/-- The entry that is recorded next, and those that are left behind it. -/
theorem first_of_drop
    {entries : Array Entry}
    {position : Nat}
    {entry : Entry}
    {rest : List Entry}
    (remaining : entry :: rest = entries.toList.drop position) :
    entries[position]? = some entry ∧ rest = entries.toList.drop (position + 1) := by
  constructor
  · have first := congrArg (·[0]?) remaining
    simpa using first.symm
  · rw [← List.drop_drop, ← remaining]
    rfl

/-- Recording entries names only numbers at which the constant stands. -/
theorem standsAt_of_indexEntries
    {entries : Array Entry}
    {position : Nat}
    {rest : List Entry}
    {index result : Std.TreeMap Constant UInt16}
    (short : entries.size ≤ 2 ^ 16)
    (remaining : rest = entries.toList.drop position)
    (stands :
      ∀ (constant : Constant) (number : UInt16),
        index[constant]? = some number → constant.StandsAt entries number)
    (recorded : indexEntries entries position rest index = .ok result) :
    ∀ (constant : Constant) (number : UInt16),
      result[constant]? = some number → constant.StandsAt entries number := by
  induction rest generalizing position index with
  | nil =>
      cases recorded
      exact stands
  | cons entry rest inductionHypothesis =>
      obtain ⟨here, behind⟩ := first_of_drop remaining
      have inside := (Array.getElem?_eq_some_iff.mp here).1
      have number : (UInt16.ofNat position).toNat = position :=
        UInt16.toNat_ofNat_of_lt' (by
          show position < 2 ^ 16
          omega)
      obtain ⟨found, indexed, later⟩ := bind_eq_ok_iff.mp recorded
      cases found with
      | none => exact inductionHypothesis behind stands later
      | some added =>
          have usable : entry ≠ .unusable := by
            rintro rfl
            cases indexed
          have held : Entry.at? entries (UInt16.ofNat position) = .ok entry :=
            Entry.at?_eq_ok_iff.mpr ⟨number.symm ▸ here, usable⟩
          refine inductionHypothesis behind ?_ later
          intro constant place known
          rw [Std.TreeMap.getElem?_insertIfNew] at known
          split at known
          · rename_i new
            cases known
            have same : added = constant := by simpa using new.1
            subst same
            exact (constantOf_eq_ok_iff held).mp indexed
          · exact stands constant place known

/-- Recording entries misses no constant. -/
theorem known_of_indexEntries
    {entries : Array Entry}
    {position : Nat}
    {rest : List Entry}
    {index result : Std.TreeMap Constant UInt16}
    {constant : Constant}
    (remaining : rest = entries.toList.drop position)
    (recorded : indexEntries entries position rest index = .ok result)
    (known :
      constant ∈ index ∨
        ∃ number, position ≤ number.toNat ∧ constant.StandsAt entries number) :
    constant ∈ result := by
  induction rest generalizing position index with
  | nil =>
      cases recorded
      rcases known with known | ⟨number, placed, stands⟩
      · exact known
      · obtain ⟨entry, held⟩ := exists_of_standsAt stands
        have found := (Entry.at?_eq_ok_iff.mp held).1
        have inside := (Array.getElem?_eq_some_iff.mp found).1
        have outside := congrArg List.length remaining
        simp only [List.length_nil, List.length_drop, Array.length_toList] at outside
        omega
  | cons entry rest inductionHypothesis =>
      obtain ⟨here, behind⟩ := first_of_drop remaining
      obtain ⟨found, indexed, later⟩ := bind_eq_ok_iff.mp recorded
      rcases known with known | ⟨number, placed, stands⟩
      · cases found with
        | none => exact inductionHypothesis behind later (.inl known)
        | some added =>
            refine inductionHypothesis behind later (.inl ?_)
            rw [Std.TreeMap.mem_insertIfNew]
            exact .inr known
      · by_cases atHere : number.toNat = position
        · obtain ⟨held, heldAt⟩ := exists_of_standsAt stands
          have same := (Entry.at?_eq_ok_iff.mp heldAt).1
          rw [atHere, here] at same
          cases same
          have sameNumber : UInt16.ofNat position = number := by rw [← atHere, UInt16.ofNat_toNat]
          rw [sameNumber, (constantOf_eq_ok_iff heldAt).mpr stands] at indexed
          cases indexed
          refine inductionHypothesis behind later (.inl ?_)
          rw [Std.TreeMap.mem_insertIfNew]
          exact .inl (by simp)
        · have placedLater : position + 1 ≤ number.toNat := by omega
          cases found <;>
            exact inductionHypothesis behind later (.inr ⟨number, placedLater, stands⟩)

end Pool

/-! ## Pools that hold together -/

/-- Behind each entry that takes two numbers stands an unusable one, and nowhere else. -/
inductive Entry.Spaced : List Entry → Prop
  | nil : Spaced []
  | narrow
      {entry : Entry}
      {rest : List Entry}
      (single : entry.isWide = false)
      (usable : entry ≠ .unusable)
      (later : Spaced rest) :
      Spaced (entry :: rest)
  | wide
      {entry : Entry}
      {rest : List Entry}
      (double : entry.isWide = true)
      (later : Spaced rest) :
      Spaced (entry :: .unusable :: rest)

theorem Entry.Spaced.append
    {first second : List Entry}
    (firstSpaced : Spaced first)
    (secondSpaced : Spaced second) :
    Spaced (first ++ second) := by
  induction firstSpaced with
  | nil => exact secondSpaced
  | narrow single usable _ inductionHypothesis => exact .narrow single usable inductionHypothesis
  | wide double _ inductionHypothesis => exact .wide double inductionHypothesis

namespace Pool

/-- The entries refer to each other as they should, and the index names the right numbers. -/
structure Sound (pool : Pool) : Prop where
  first : pool.entries.toList.head? = some .unusable
  spaced : Entry.Spaced pool.entries.toList.tail
  checked : ∀ entry ∈ pool.entries.toList, Entry.check pool.entries entry = .ok ()
  stands :
    ∀ (constant : Constant) (number : UInt16),
      pool.index[constant]? = some number → constant.StandsAt pool.entries number

/-- As in a sound pool, but unusable entries may stand anywhere. -/
structure Coherent (pool : Pool) : Prop where
  checked : ∀ entry ∈ pool.entries.toList, Entry.check pool.entries entry = .ok ()
  stands :
    ∀ (constant : Constant) (number : UInt16),
      pool.index[constant]? = some number → constant.StandsAt pool.entries number

/-- Unusable entries stand at number zero and behind wide entries, and nowhere else. -/
structure Arranged (pool : Pool) : Prop where
  first : pool.entries.toList.head? = some .unusable
  spaced : Entry.Spaced pool.entries.toList.tail

/-- The index misses no constant that stands somewhere. -/
def Complete (pool : Pool) : Prop :=
  ∀ (constant : Constant) (number : UInt16),
    constant.StandsAt pool.entries number → pool.Knows constant

theorem Sound.coherent {pool : Pool} (sound : pool.Sound) : pool.Coherent :=
  ⟨sound.checked, sound.stands⟩

theorem Sound.arranged {pool : Pool} (sound : pool.Sound) : pool.Arranged :=
  ⟨sound.first, sound.spaced⟩

theorem Coherent.sound
    {pool : Pool}
    (coherent : pool.Coherent)
    (arranged : pool.Arranged) :
    pool.Sound :=
  ⟨arranged.first, arranged.spaced, coherent.checked, coherent.stands⟩

/-- Nothing stands at number zero. -/
theorem ne_zero_of_standsAt
    {entries : Array Entry}
    {number : UInt16}
    {constant : Constant}
    (first : entries.toList.head? = some .unusable)
    (stands : constant.StandsAt entries number) :
    number ≠ 0 := by
  rintro rfl
  obtain ⟨entry, held⟩ := exists_of_standsAt stands
  obtain ⟨found, usable⟩ := Entry.at?_eq_ok_iff.mp held
  rw [List.head?_eq_getElem?, Array.getElem?_toList] at first
  rw [show (0 : UInt16).toNat = 0 from rfl, first] at found
  exact usable (Option.some.inj found).symm

theorem Sound.ne_zero
    {pool : Pool}
    {number : UInt16}
    {constant : Constant}
    (sound : pool.Sound)
    (stands : constant.StandsAt pool.entries number) :
    number ≠ 0 :=
  ne_zero_of_standsAt sound.first stands

section Adopting

variable {entries : Array Entry} {pool : Pool}

theorem entries_of_ofEntries
    (adopted : ofEntries entries = .ok pool) :
    pool.entries = entries := by
  obtain ⟨_, _, others⟩ := bind_eq_ok_iff.mp adopted
  obtain ⟨_, _, same⟩ := bind_eq_ok_iff.mp others
  cases same
  rfl

/-- Adopted entries hold together. -/
theorem coherent_of_ofEntries
    (short : entries.size ≤ 2 ^ 16)
    (adopted : ofEntries entries = .ok pool) :
    pool.Coherent := by
  obtain ⟨⟨⟩, checked, others⟩ := bind_eq_ok_iff.mp adopted
  obtain ⟨index, recorded, same⟩ := bind_eq_ok_iff.mp others
  cases same
  exact ⟨forM_eq_ok_iff.mp checked, standsAt_of_indexEntries short rfl (by simp) recorded⟩

/-- The index of adopted entries misses none of their constants. -/
theorem complete_of_ofEntries
    (first : entries.toList.head? = some .unusable)
    (adopted : ofEntries entries = .ok pool) :
    pool.Complete := by
  obtain ⟨_, _, others⟩ := bind_eq_ok_iff.mp adopted
  obtain ⟨index, recorded, same⟩ := bind_eq_ok_iff.mp others
  cases same
  intro constant number stands
  have nonzero := ne_zero_of_standsAt first stands
  have placed : 1 ≤ number.toNat := by
    by_contra zero
    exact nonzero (UInt16.toNat_inj.mp (show number.toNat = 0 by omega))
  have known := known_of_indexEntries rfl recorded (.inr ⟨number, placed, stands⟩)
  exact ⟨_, Std.TreeMap.getElem?_eq_some_getElem known⟩

/-- Adopted entries that are arranged as they should be make a sound pool. -/
theorem sound_of_ofEntries
    (short : entries.size ≤ 2 ^ 16)
    (first : entries.toList.head? = some .unusable)
    (spaced : Entry.Spaced entries.toList.tail)
    (adopted : ofEntries entries = .ok pool) :
    pool.Sound := by
  have same := entries_of_ofEntries adopted
  exact (coherent_of_ofEntries short adopted).sound ⟨same ▸ first, same ▸ spaced⟩

end Adopting

/-! ## Interning -/

theorem lt_size_of_standsAt
    {entries : Array Entry}
    {number : UInt16}
    {constant : Constant}
    (stands : constant.StandsAt entries number) :
    number.toNat < entries.size := by
  obtain ⟨entry, held⟩ := exists_of_standsAt stands
  exact (Array.getElem?_eq_some_iff.mp (Entry.at?_eq_ok_iff.mp held).1).1

/-- What stands at an old number of a grown pool stood there before. -/
theorem Coherent.standsAt_of_lt
    {pool : Pool}
    {longer : Array Entry}
    {number : UInt16}
    {constant : Constant}
    (coherent : pool.Coherent)
    (kept : Entry.Extends pool.entries longer)
    (old : number.toNat < pool.size)
    (stands : constant.StandsAt longer number) :
    constant.StandsAt pool.entries number := by
  obtain ⟨entry, held⟩ := exists_of_standsAt stands
  obtain ⟨found, usable⟩ := Entry.at?_eq_ok_iff.mp held
  have here : pool.entries[number.toNat]? = some pool.entries[number.toNat] :=
    Array.getElem?_eq_getElem old
  have same := (kept _ _ here).symm.trans found
  cases same
  exact standsAt_of_extends kept (Entry.at?_eq_ok_iff.mpr ⟨here, usable⟩)
    (coherent.checked _ (Array.getElem_mem_toList old)) stands

/--
A pool became another one: nothing has moved, no number in the index has changed,
and what was added are constants that stand nowhere else.
-/
structure Advances (pool after : Pool) : Prop where
  coherent : after.Coherent
  kept : Entry.Extends pool.entries after.entries
  appended :
    ∀ (number : UInt16) (held : Entry),
      pool.size ≤ number.toNat → Entry.at? after.entries number = .ok held →
        ∃ constant : Constant, constant.StandsAt after.entries number
  indexed :
    ∀ (constant : Constant) (number : UInt16),
      pool.index[constant]? = some number → after.index[constant]? = some number
  arranged : pool.Arranged → after.Arranged
  complete : pool.Complete → after.Complete
  single :
    pool.Complete →
      ∀ (constant : Constant) (number other : UInt16),
        pool.size ≤ number.toNat → constant.StandsAt after.entries number →
          constant.StandsAt after.entries other → other = number
  filled :
    ∀ (place : Nat) (held : Entry),
      pool.size ≤ place → after.entries[place]? = some held → held.isWide = true →
        after.entries[place + 1]? = some .unusable

theorem Advances.refl
    {pool : Pool}
    (coherent : pool.Coherent) :
    Advances pool pool where
  coherent
  kept := .refl _
  appended number held new heldAt := by
    have old : number.toNat < pool.size :=
      (Array.getElem?_eq_some_iff.mp (Entry.at?_eq_ok_iff.mp heldAt).1).1
    omega
  indexed _ _ := id
  arranged := id
  complete := id
  single _ _ number _ new stands _ := by
    have old : number.toNat < pool.size := lt_size_of_standsAt stands
    omega
  filled place held new found _ := by
    have old : place < pool.size := (Array.getElem?_eq_some_iff.mp found).1
    omega

theorem Advances.trans
    {pool middle after : Pool}
    (first : Advances pool middle)
    (second : Advances middle after) :
    Advances pool after where
  coherent := second.coherent
  kept := first.kept.trans second.kept
  appended number held new heldAt := by
    by_cases later : middle.size ≤ number.toNat
    · exact second.appended number held later heldAt
    · obtain ⟨found, usable⟩ := Entry.at?_eq_ok_iff.mp heldAt
      obtain ⟨old, here⟩ : ∃ old, middle.entries[number.toNat]? = some old :=
        ⟨_, Array.getElem?_eq_getElem (Nat.not_le.mp later)⟩
      have same := (second.kept _ _ here).symm.trans found
      cases same
      obtain ⟨constant, stands⟩ :=
        first.appended number held new (Entry.at?_eq_ok_iff.mpr ⟨here, usable⟩)
      exact ⟨constant, stands.extend second.kept⟩
  indexed constant number known := second.indexed constant number (first.indexed constant number known)
  arranged := second.arranged ∘ first.arranged
  complete := second.complete ∘ first.complete
  single complete constant number other new stands otherStands := by
    have middleComplete := first.complete complete
    by_cases later : middle.size ≤ number.toNat
    · exact second.single middleComplete constant number other later stands otherStands
    by_cases otherLater : middle.size ≤ other.toNat
    · exact
        (second.single middleComplete constant other number otherLater otherStands stands).symm
    · exact
        first.single complete constant number other new
          (first.coherent.standsAt_of_lt second.kept (Nat.not_le.mp later) stands)
          (first.coherent.standsAt_of_lt second.kept (Nat.not_le.mp otherLater) otherStands)
  filled place held new found wide := by
    by_cases later : middle.size ≤ place
    · exact second.filled place held later found wide
    · obtain ⟨old, here⟩ : ∃ old, middle.entries[place]? = some old :=
        ⟨_, Array.getElem?_eq_getElem (Nat.not_le.mp later)⟩
      have same := (second.kept _ _ here).symm.trans found
      cases same
      exact second.kept _ _ (first.filled place _ new here wide)

/-- A pool became a sound one, in which nothing has moved and nothing is forgotten. -/
structure Grows (pool after : Pool) : Prop where
  sound : after.Sound
  kept : Entry.Extends pool.entries after.entries
  known : ∀ constant, pool.Knows constant → after.Knows constant

theorem Grows.refl
    {pool : Pool}
    (sound : pool.Sound) :
    Grows pool pool :=
  ⟨sound, .refl _, fun _ => id⟩

theorem Grows.trans
    {pool middle after : Pool}
    (first : Grows pool middle)
    (second : Grows middle after) :
    Grows pool after :=
  ⟨second.sound, first.kept.trans second.kept,
    fun constant known => second.known constant (first.known constant known)⟩

/-- A sound pool that advances grows. -/
theorem Advances.grows
    {pool after : Pool}
    (advances : Advances pool after)
    (sound : pool.Sound) :
    Grows pool after where
  sound := advances.coherent.sound (advances.arranged sound.arranged)
  kept := advances.kept
  known constant known := known.imp (advances.indexed constant)

/-- A constant that is known has its number at hand. -/
theorem internWith_of_known
    {pool : Pool}
    {constant : Constant}
    {build : StateM Pool Entry}
    (sound : pool.Sound)
    (known : pool.Knows constant) :
    ∃ number,
      internWith constant build pool = (number, pool) ∧ constant.StandsAt pool.entries number := by
  obtain ⟨number, found⟩ := known
  refine ⟨number, ?_, sound.stands constant number found⟩
  simp [internWith, found]

theorem internText_of_known
    {pool : Pool}
    {text : String}
    (sound : pool.Sound)
    (known : pool.Knows (.utf8 text)) :
    ∃ number,
      internText text pool = (number, pool) ∧ Entry.textAt pool.entries number = .ok text :=
  internWith_of_known sound known

theorem internClass_of_known
    {pool : Pool}
    {name : String}
    (sound : pool.Sound)
    (known : pool.Knows (.classRef name)) :
    ∃ number,
      internClass name pool = (number, pool) ∧
        Entry.classNameAt pool.entries number = .ok name :=
  internWith_of_known sound known

/-! ## Nothing moves -/

theorem extends_append
    (pool : Pool)
    (constant : Constant)
    (entry : Entry) :
    Entry.Extends pool.entries (pool.append constant entry).2.entries := by
  unfold append
  simp only
  split
  · exact (Entry.extends_push _ _).trans (Entry.extends_push _ _)
  · exact Entry.extends_push _ _

theorem extends_internWith
    {pool : Pool}
    {constant : Constant}
    {build : StateM Pool Entry}
    (built : Entry.Extends pool.entries (build pool).2.entries) :
    Entry.Extends pool.entries (internWith constant build pool).2.entries := by
  unfold internWith
  split
  · exact .refl _
  · exact built.trans (extends_append _ _ _)

theorem extends_internText
    (text : String)
    (pool : Pool) :
    Entry.Extends pool.entries (internText text pool).2.entries :=
  extends_internWith (.refl _)

theorem extends_internNameAndType
    (name descriptor : String)
    (pool : Pool) :
    Entry.Extends pool.entries (internNameAndType name descriptor pool).2.entries :=
  extends_internWith
    ((extends_internText name pool).trans (extends_internText descriptor _))

theorem extends_internClass
    (name : String)
    (pool : Pool) :
    Entry.Extends pool.entries (internClass name pool).2.entries :=
  extends_internWith (extends_internText name pool)

theorem extends_internString
    (text : String)
    (pool : Pool) :
    Entry.Extends pool.entries (internString text pool).2.entries :=
  extends_internWith (extends_internText text pool)

theorem extends_internMember
    (kind : MemberKind)
    (names : Member)
    (pool : Pool) :
    Entry.Extends pool.entries (internMember kind names pool).2.entries :=
  extends_internWith
    ((extends_internClass names.owner pool).trans
      (extends_internNameAndType names.name names.descriptor _))

/-! ## Numbers for constants -/

/-- Appending adds the entry, behind a wide one the unusable one, and nothing else. -/
theorem getElem?_append_iff
    {pool : Pool}
    {constant : Constant}
    {entry held : Entry}
    {place : Nat} :
    (pool.append constant entry).2.entries[place]? = some held ↔
      pool.entries[place]? = some held ∨
        place = pool.size ∧ held = entry ∨
          place = pool.size + 1 ∧ held = .unusable ∧ entry.isWide = true := by
  have shape :
      (pool.append constant entry).2.entries.toList =
        pool.entries.toList ++ entry :: if entry.isWide then [.unusable] else [] := by
    cases wide : entry.isWide <;> simp [append, wide]
  have beyond (more : Nat) : pool.entries[pool.size + more]? = none :=
    Array.getElem?_eq_none (Nat.le_add_right pool.entries.size more)
  have behind : pool.entries[pool.size]? = none := beyond 0
  rw [← Array.getElem?_toList, shape, List.getElem?_append, Array.length_toList,
    Array.getElem?_toList]
  split
  · rename_i old
    have outside : place ≠ pool.size ∧ place ≠ pool.size + 1 := by
      simp only [size]
      omega
    simp [outside]
  · obtain ⟨more, rfl⟩ : ∃ more, place = pool.size + more :=
      ⟨place - pool.size, by simp only [size]; omega⟩
    rw [show pool.size + more - pool.entries.size = more by simp only [size]; omega]
    match more with
    | 0 => simp [behind, @eq_comm _ entry held]
    | 1 => cases entry.isWide <;> simp [beyond, @eq_comm _ Entry.unusable held]
    | more + 2 => cases entry.isWide <;> simp [beyond]

theorem getElem?_index_append
    {pool : Pool}
    {constant other : Constant}
    {entry : Entry} :
    (pool.append constant entry).2.index[other]? =
      if constant = other then some (UInt16.ofNat pool.size) else pool.index[other]? := by
  have inserted :
      (pool.append constant entry).2.index[other]? =
        if compare constant other = .eq then some (UInt16.ofNat pool.size)
        else pool.index[other]? :=
    Std.TreeMap.getElem?_insert
  simpa using inserted

theorem Arranged.append
    {pool : Pool}
    {entry : Entry}
    (arranged : pool.Arranged)
    (constant : Constant)
    (usable : entry ≠ .unusable) :
    (pool.append constant entry).2.Arranged := by
  have shape :
      (pool.append constant entry).2.entries.toList =
        pool.entries.toList ++ entry :: if entry.isWide then [.unusable] else [] := by
    cases wide : entry.isWide <;> simp [Pool.append, wide]
  have addedSpaced : Entry.Spaced (entry :: if entry.isWide then [.unusable] else []) := by
    cases wide : entry.isWide
    · exact .narrow wide usable .nil
    · exact .wide wide .nil
  obtain ⟨first, spaced⟩ := arranged
  cases entries : pool.entries.toList with
  | nil => simp [entries] at first
  | cons filler rest =>
      rw [entries] at first spaced shape
      constructor
      · rw [shape]
        exact first
      · rw [shape]
        exact Entry.Spaced.append spaced addedSpaced

/-- Appending makes one number usable, the first one that was free. -/
theorem eq_ofNat_of_at?_append
    {pool : Pool}
    {constant : Constant}
    {entry held : Entry}
    {place : UInt16}
    (room : pool.size < 2 ^ 16)
    (new : pool.size ≤ place.toNat)
    (heldAt : Entry.at? (pool.append constant entry).2.entries place = .ok held) :
    place = UInt16.ofNat pool.size := by
  obtain ⟨found, heldUsable⟩ := Entry.at?_eq_ok_iff.mp heldAt
  rcases getElem?_append_iff.mp found with old | ⟨here, _⟩ | ⟨_, filler, _⟩
  · have := (Array.getElem?_eq_some_iff.mp old).1
    simp only [size] at new
    omega
  · exact UInt16.toNat_inj.mp (here.trans (UInt16.toNat_ofNat_of_lt' room).symm)
  · exact absurd filler heldUsable

/-- A pool stays coherent if its new constant stands where it was appended. -/
theorem Coherent.append
    {pool : Pool}
    {constant : Constant}
    {entry : Entry}
    (coherent : pool.Coherent)
    (checked : Entry.check pool.entries entry = .ok ())
    (stands :
      constant.StandsAt (pool.append constant entry).2.entries (UInt16.ofNat pool.size)) :
    (pool.append constant entry).2.Coherent := by
  have kept := extends_append pool constant entry
  constructor
  case checked =>
    intro other member
    obtain ⟨place, found⟩ := List.mem_iff_getElem?.mp member
    rw [Array.getElem?_toList] at found
    rcases getElem?_append_iff.mp found with old | ⟨_, rfl⟩ | ⟨_, rfl, _⟩
    · refine kept.check (coherent.checked other ?_)
      exact List.mem_iff_getElem?.mpr ⟨place, by rwa [Array.getElem?_toList]⟩
    · exact kept.check checked
    · rfl
  case stands =>
    intro other place found
    rw [getElem?_index_append] at found
    split at found
    · rename_i same
      subst same
      cases found
      exact stands
    · exact (coherent.stands other place found).extend kept

/-- Appending an entry whose references are good gives its constant a number. -/
theorem advances_append
    {pool : Pool}
    {constant : Constant}
    {entry : Entry}
    (coherent : pool.Coherent)
    (unknown : pool.index[constant]? = none)
    (fits : (pool.append constant entry).2.size ≤ 2 ^ 16)
    (usable : entry ≠ .unusable)
    (checked : Entry.check pool.entries entry = .ok ())
    (means :
      ∀ entries number,
        Entry.Extends pool.entries entries → Entry.at? entries number = .ok entry →
          constant.StandsAt entries number) :
    Advances pool (pool.append constant entry).2 ∧
      constant.StandsAt (pool.append constant entry).2.entries
        (pool.append constant entry).1 := by
  have kept := extends_append pool constant entry
  have placed : (pool.append constant entry).2.entries[pool.size]? = some entry :=
    getElem?_append_iff.mpr (.inr (.inl ⟨rfl, rfl⟩))
  have room : pool.size < 2 ^ 16 :=
    Nat.lt_of_lt_of_le (Array.getElem?_eq_some_iff.mp placed).1 fits
  have number : (UInt16.ofNat pool.size).toNat = pool.size := UInt16.toNat_ofNat_of_lt' room
  have stands :
      constant.StandsAt (pool.append constant entry).2.entries (UInt16.ofNat pool.size) :=
    means _ _ kept (Entry.at?_eq_ok_iff.mpr ⟨number.symm ▸ placed, usable⟩)
  have atNew
      {other : Constant}
      {place : UInt16}
      (new : pool.size ≤ place.toNat)
      (otherStands : other.StandsAt (pool.append constant entry).2.entries place) :
      place = UInt16.ofNat pool.size ∧ other = constant := by
    obtain ⟨_, heldAt⟩ := exists_of_standsAt otherStands
    obtain rfl := eq_ofNat_of_at?_append room new heldAt
    exact ⟨rfl, eq_of_standsAt otherStands stands⟩
  refine ⟨?_, stands⟩
  constructor
  case coherent => exact coherent.append checked stands
  case kept => exact kept
  case appended =>
    intro place held new heldAt
    obtain rfl := eq_ofNat_of_at?_append room new heldAt
    exact ⟨constant, stands⟩
  case indexed =>
    intro other place known
    rw [getElem?_index_append, if_neg, known]
    rintro rfl
    rw [unknown] at known
    cases known
  case arranged =>
    exact fun arranged => arranged.append constant usable
  case complete =>
    intro complete other place otherStands
    show ∃ number, (pool.append constant entry).2.index[other]? = some number
    rw [getElem?_index_append]
    split
    · exact ⟨_, rfl⟩
    · rename_i different
      by_cases old : place.toNat < pool.size
      · exact complete other place (coherent.standsAt_of_lt kept old otherStands)
      · exact absurd (atNew (Nat.not_lt.mp old) otherStands).2.symm different
  case single =>
    intro complete other place another new placeStands anotherStands
    obtain ⟨rfl, rfl⟩ := atNew new placeStands
    by_cases old : another.toNat < pool.size
    · obtain ⟨known, found⟩ :=
        complete other another (coherent.standsAt_of_lt kept old anotherStands)
      rw [unknown] at found
      cases found
    · exact (atNew (Nat.not_lt.mp old) anotherStands).1
  case filled =>
    intro place held new found wide
    rcases getElem?_append_iff.mp found with old | ⟨rfl, rfl⟩ | ⟨_, rfl, _⟩
    · have := (Array.getElem?_eq_some_iff.mp old).1
      simp only [size] at new
      omega
    · exact getElem?_append_iff.mpr (.inr (.inr ⟨rfl, rfl, wide⟩))
    · cases wide

/-- Interning a constant leaves another one alone if building its entry does. -/
theorem getElem?_index_internWith
    {pool : Pool}
    {constant other : Constant}
    {build : StateM Pool Entry}
    (different : constant ≠ other)
    (built : (build pool).2.index[other]? = pool.index[other]?) :
    (internWith constant build pool).2.index[other]? = pool.index[other]? := by
  unfold internWith
  split
  · rfl
  · exact getElem?_index_append.trans ((if_neg different).trans built)

theorem getElem?_index_internText
    {pool : Pool}
    {text : String}
    {other : Constant}
    (different : ∀ text, other ≠ .utf8 text) :
    (internText text pool).2.index[other]? = pool.index[other]? :=
  getElem?_index_internWith (different text).symm rfl

/-- Interning gives a constant a number, if what builds its entry does its part. -/
theorem advances_internWith
    {pool after : Pool}
    {constant : Constant}
    {build : StateM Pool Entry}
    {number : UInt16}
    (coherent : pool.Coherent)
    (interned : internWith constant build pool = (number, after))
    (fits : after.size ≤ 2 ^ 16)
    (apart : (build pool).2.index[constant]? = pool.index[constant]?)
    (built :
      ∀ entry middle,
        build pool = (entry, middle) → middle.size ≤ 2 ^ 16 →
          Advances pool middle ∧ entry ≠ .unusable ∧ Entry.check middle.entries entry = .ok () ∧
            ∀ entries place,
              Entry.Extends middle.entries entries → Entry.at? entries place = .ok entry →
                constant.StandsAt entries place) :
    Advances pool after ∧ constant.StandsAt after.entries number := by
  unfold internWith at interned
  split at interned
  · rename_i known
    cases interned
    exact ⟨.refl coherent, coherent.stands constant number known⟩
  · rename_i unknown
    rcases run : build pool with ⟨entry, middle⟩
    simp only [run] at interned apart
    have shape : (middle.append constant entry).2 = after := by rw [interned]
    have smaller := (extends_append middle constant entry).size_le
    rw [shape] at smaller
    obtain ⟨advanced, usable, checked, means⟩ := built entry middle run (Nat.le_trans smaller fits)
    obtain ⟨advancedAfter, stands⟩ :=
      advances_append advanced.coherent (apart.trans unknown) (shape ▸ fits) usable checked means
    rw [interned] at advancedAfter stands
    exact ⟨advanced.trans advancedAfter, stands⟩

section Constants

variable {pool after : Pool} {number : UInt16}

theorem advances_internText
    {text : String}
    (coherent : pool.Coherent)
    (interned : internText text pool = (number, after))
    (fits : after.size ≤ 2 ^ 16) :
    Advances pool after ∧ (Constant.utf8 text).StandsAt after.entries number := by
  refine advances_internWith coherent interned fits rfl ?_
  intro entry middle run _
  cases run
  exact ⟨.refl coherent, by simp, rfl, fun _ _ _ held => Entry.textAt_eq_ok_iff.mpr held⟩

theorem advances_internClass
    {name : String}
    (coherent : pool.Coherent)
    (interned : internClass name pool = (number, after))
    (fits : after.size ≤ 2 ^ 16) :
    Advances pool after ∧ (Constant.classRef name).StandsAt after.entries number := by
  refine advances_internWith coherent interned fits (getElem?_index_internText (by simp)) ?_
  intro entry middle run small
  rcases text : internText name pool with ⟨place, grown⟩
  simp only [bind, StateT.bind, text] at run
  cases run
  obtain ⟨advances, stands⟩ := advances_internText coherent text small
  refine ⟨advances, by simp, Entry.discard_eq_ok_iff.mpr ⟨name, stands⟩, ?_⟩
  intro entries number kept held
  exact Entry.classNameAt_eq_ok_iff.mpr ⟨place, held, kept.textAt stands⟩

theorem advances_internString
    {text : String}
    (coherent : pool.Coherent)
    (interned : internString text pool = (number, after))
    (fits : after.size ≤ 2 ^ 16) :
    Advances pool after ∧ (Constant.string text).StandsAt after.entries number := by
  refine advances_internWith coherent interned fits (getElem?_index_internText (by simp)) ?_
  intro entry middle run small
  rcases placed : internText text pool with ⟨place, grown⟩
  simp only [bind, StateT.bind, placed] at run
  cases run
  obtain ⟨advances, stands⟩ := advances_internText coherent placed small
  refine ⟨advances, by simp, Entry.discard_eq_ok_iff.mpr ⟨text, stands⟩, ?_⟩
  intro entries number kept held
  exact ⟨place, held, kept.textAt stands⟩

theorem advances_internInteger
    {value : Int32}
    (coherent : pool.Coherent)
    (interned : internInteger value pool = (number, after))
    (fits : after.size ≤ 2 ^ 16) :
    Advances pool after ∧ (Constant.integer value).StandsAt after.entries number := by
  refine advances_internWith coherent interned fits rfl ?_
  intro entry middle run _
  cases run
  exact ⟨.refl coherent, by simp, rfl, fun _ _ _ held => held⟩

theorem advances_internLong
    {value : Int64}
    (coherent : pool.Coherent)
    (interned : internLong value pool = (number, after))
    (fits : after.size ≤ 2 ^ 16) :
    Advances pool after ∧ (Constant.long value).StandsAt after.entries number := by
  refine advances_internWith coherent interned fits rfl ?_
  intro entry middle run _
  cases run
  exact ⟨.refl coherent, by simp, rfl, fun _ _ _ held => held⟩

theorem advances_internNameAndType
    {name descriptor : String}
    (coherent : pool.Coherent)
    (interned : internNameAndType name descriptor pool = (number, after))
    (fits : after.size ≤ 2 ^ 16) :
    Advances pool after ∧ (Constant.nameAndType name descriptor).StandsAt after.entries number := by
  have apart :
      (internText descriptor (internText name pool).2).2.index[
          Constant.nameAndType name descriptor]? =
        pool.index[Constant.nameAndType name descriptor]? :=
    (getElem?_index_internText (by simp)).trans (getElem?_index_internText (by simp))
  refine advances_internWith coherent interned fits apart ?_
  intro entry middle run small
  rcases namePlaced : internText name pool with ⟨namePlace, grown⟩
  rcases descriptorPlaced : internText descriptor grown with ⟨descriptorPlace, grownAgain⟩
  simp only [bind, StateT.bind, namePlaced, descriptorPlaced] at run
  cases run
  have smaller := (extends_internText descriptor grown).size_le
  rw [descriptorPlaced] at smaller
  obtain ⟨advances, nameStands⟩ :=
    advances_internText coherent namePlaced (Nat.le_trans smaller small)
  obtain ⟨advancesAgain, descriptorStands⟩ :=
    advances_internText advances.coherent descriptorPlaced small
  have nameStands := nameStands.extend advancesAgain.kept
  refine ⟨advances.trans advancesAgain, by simp, ?_, ?_⟩
  · exact bind_eq_ok_iff.mpr
      ⟨name, nameStands, Entry.discard_eq_ok_iff.mpr ⟨descriptor, descriptorStands⟩⟩
  · intro entries number kept held
    exact Entry.nameAndTypeAt_eq_ok_iff.mpr
      ⟨namePlace, descriptorPlace, held, kept.textAt nameStands, kept.textAt descriptorStands⟩

theorem advances_internMember
    {kind : MemberKind}
    {names : Member}
    (coherent : pool.Coherent)
    (interned : internMember kind names pool = (number, after))
    (fits : after.size ≤ 2 ^ 16) :
    Advances pool after ∧ (Constant.member kind names).StandsAt after.entries number := by
  have ownerApart :
      (internClass names.owner pool).2.index[Constant.member kind names]? =
        pool.index[Constant.member kind names]? :=
    getElem?_index_internWith (by simp) (getElem?_index_internText (by simp))
  have apart :
      (internNameAndType names.name names.descriptor (internClass names.owner pool).2).2.index[
          Constant.member kind names]? =
        pool.index[Constant.member kind names]? :=
    (getElem?_index_internWith (by simp)
      ((getElem?_index_internText (by simp)).trans (getElem?_index_internText (by simp)))).trans ownerApart
  refine advances_internWith coherent interned fits apart ?_
  intro entry middle run small
  rcases ownerPlaced : internClass names.owner pool with ⟨owner, grown⟩
  rcases pairPlaced : internNameAndType names.name names.descriptor grown with ⟨pair, grownAgain⟩
  simp only [bind, StateT.bind, ownerPlaced, pairPlaced] at run
  cases run
  have smaller := (extends_internNameAndType names.name names.descriptor grown).size_le
  rw [pairPlaced] at smaller
  obtain ⟨advances, ownerStands⟩ :=
    advances_internClass coherent ownerPlaced (Nat.le_trans smaller small)
  obtain ⟨advancesAgain, pairStands⟩ :=
    advances_internNameAndType advances.coherent pairPlaced small
  have ownerStands := ownerStands.extend advancesAgain.kept
  refine ⟨advances.trans advancesAgain, by simp, ?_, ?_⟩
  · exact bind_eq_ok_iff.mpr
      ⟨names.owner, ownerStands, Entry.discard_eq_ok_iff.mpr ⟨_, pairStands⟩⟩
  · intro entries number kept held
    exact
      ⟨⟨owner, pair, held⟩,
        Entry.memberAt_eq_ok_iff.mpr
          ⟨kind, owner, pair, held, kept.classNameAt ownerStands, kept.nameAndTypeAt pairStands⟩⟩

end Constants

end Pool
end JvmClass
