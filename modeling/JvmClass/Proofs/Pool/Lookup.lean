import JvmClass.Pool
import JvmClass.Proofs.Steps

namespace JvmClass.Entry

/-!
# Lookups in a list of entries

A lookup that succeeds has found an entry of the kind it asked for, and what it
has found stays where it is when entries are added.
-/

variable {entries longer : Array Entry} {index : UInt16}

theorem at?_eq_ok_iff
    {entry : Entry} :
    at? entries index = .ok entry ↔
      entries[index.toNat]? = some entry ∧ entry ≠ .unusable := by
  unfold at?
  split
  · rename_i missing
    simp [missing]
  · rename_i held
    simp only [held, reduceCtorEq, Option.some.injEq, false_iff, not_and, ne_eq, not_not]
    exact Eq.symm
  · rename_i found usable held
    simp only [held, Except.ok.injEq, Option.some.injEq]
    constructor
    · rintro rfl
      refine ⟨rfl, ?_⟩
      rintro rfl
      exact usable rfl
    · exact And.left

theorem textAt_eq_ok_iff
    {text : String} :
    textAt entries index = .ok text ↔ at? entries index = .ok (.utf8 text) := by
  unfold textAt
  simp only [bind_eq_ok_iff]
  constructor
  · rintro ⟨entry, found, result⟩
    split at result
    · cases result
      exact found
    · cases result
  · intro found
    exact ⟨_, found, rfl⟩

theorem classNameAt_eq_ok_iff
    {name : String} :
    classNameAt entries index = .ok name ↔
      ∃ place, at? entries index = .ok (.classRef place) ∧ textAt entries place = .ok name := by
  unfold classNameAt
  simp only [bind_eq_ok_iff]
  constructor
  · rintro ⟨entry, found, result⟩
    split at result
    · exact ⟨_, found, result⟩
    · cases result
  · rintro ⟨place, found, text⟩
    exact ⟨_, found, text⟩

theorem nameAndTypeAt_eq_ok_iff
    {name descriptor : String} :
    nameAndTypeAt entries index = .ok (name, descriptor) ↔
      ∃ namePlace descriptorPlace,
        at? entries index = .ok (.nameAndType namePlace descriptorPlace) ∧
          textAt entries namePlace = .ok name ∧
            textAt entries descriptorPlace = .ok descriptor := by
  unfold nameAndTypeAt
  simp only [bind_eq_ok_iff]
  constructor
  · rintro ⟨entry, found, result⟩
    split at result
    · simp only [bind_eq_ok_iff] at result
      obtain ⟨first, firstText, second, secondText, same⟩ := result
      cases same
      exact ⟨_, _, found, firstText, secondText⟩
    · cases result
  · rintro ⟨namePlace, descriptorPlace, found, firstText, secondText⟩
    refine ⟨_, found, ?_⟩
    simp only [firstText, secondText]
    rfl

theorem memberAt_eq_ok_iff
    {member : Member} :
    memberAt entries index = .ok member ↔
      ∃ kind owner pair,
        at? entries index = .ok (.member kind owner pair) ∧
          classNameAt entries owner = .ok member.owner ∧
            nameAndTypeAt entries pair = .ok (member.name, member.descriptor) := by
  unfold memberAt
  simp only [bind_eq_ok_iff]
  constructor
  · rintro ⟨entry, found, result⟩
    split at result
    · simp only [bind_eq_ok_iff] at result
      obtain ⟨owner, ownerName, ⟨name, descriptor⟩, pairNames, same⟩ := result
      cases same
      exact ⟨_, _, _, found, ownerName, pairNames⟩
    · cases result
  · rintro ⟨kind, owner, pair, found, ownerName, pairNames⟩
    refine ⟨_, found, ?_⟩
    simp only [ownerName, pairNames]
    rfl

theorem dynamicAt_eq_ok_iff
    {names : String × String} :
    dynamicAt entries index = .ok names ↔
      ∃ bootstrap pair,
        (at? entries index = .ok (.dynamic bootstrap pair) ∨
          at? entries index = .ok (.invokeDynamic bootstrap pair)) ∧
          nameAndTypeAt entries pair = .ok names := by
  unfold dynamicAt
  simp only [bind_eq_ok_iff]
  constructor
  · rintro ⟨entry, found, result⟩
    split at result
    · exact ⟨_, _, .inl found, result⟩
    · exact ⟨_, _, .inr found, result⟩
    · cases result
  · rintro ⟨bootstrap, pair, found | found, names⟩
    · exact ⟨_, found, names⟩
    · exact ⟨_, found, names⟩

/-! ## Longer lists -/

/-- Every entry of the first list has the same number in the second. -/
def Extends (entries longer : Array Entry) : Prop :=
  ∀ (place : Nat) (entry : Entry), entries[place]? = some entry → longer[place]? = some entry

theorem Extends.refl (entries : Array Entry) : Extends entries entries :=
  fun _ _ found => found

theorem Extends.trans
    {longest : Array Entry}
    (first : Extends entries longer)
    (second : Extends longer longest) :
    Extends entries longest :=
  fun place entry found => second place entry (first place entry found)

theorem extends_push (entries : Array Entry) (entry : Entry) :
    Extends entries (entries.push entry) := by
  intro place held found
  have inside := (Array.getElem?_eq_some_iff.mp found).1
  rw [Array.getElem?_push, if_neg (by omega), found]

theorem Extends.size_le (kept : Extends entries longer) : entries.size ≤ longer.size := by
  by_contra shorter
  have found := kept longer.size entries[longer.size] (Array.getElem?_eq_getElem (by omega))
  simp at found

/-- The entries of a pool come first in every pool that has grown from it. -/
theorem Extends.isPrefix
    (kept : Extends entries longer) :
    entries.toList <+: longer.toList := by
  rw [List.prefix_iff_getElem?]
  intro place inside
  have found := kept place entries[place] (Array.getElem?_eq_getElem inside)
  simpa using found

theorem Extends.at?
    {entry : Entry}
    (kept : Extends entries longer)
    (found : at? entries index = .ok entry) :
    Entry.at? longer index = .ok entry := by
  obtain ⟨held, usable⟩ := at?_eq_ok_iff.mp found
  exact at?_eq_ok_iff.mpr ⟨kept _ _ held, usable⟩

theorem Extends.textAt
    {text : String}
    (kept : Extends entries longer)
    (found : textAt entries index = .ok text) :
    Entry.textAt longer index = .ok text :=
  textAt_eq_ok_iff.mpr (kept.at? (textAt_eq_ok_iff.mp found))

theorem Extends.classNameAt
    {name : String}
    (kept : Extends entries longer)
    (found : classNameAt entries index = .ok name) :
    Entry.classNameAt longer index = .ok name := by
  obtain ⟨place, held, text⟩ := classNameAt_eq_ok_iff.mp found
  exact classNameAt_eq_ok_iff.mpr ⟨place, kept.at? held, kept.textAt text⟩

theorem Extends.nameAndTypeAt
    {names : String × String}
    (kept : Extends entries longer)
    (found : nameAndTypeAt entries index = .ok names) :
    Entry.nameAndTypeAt longer index = .ok names := by
  obtain ⟨first, second, held, firstText, secondText⟩ := nameAndTypeAt_eq_ok_iff.mp found
  exact nameAndTypeAt_eq_ok_iff.mpr
    ⟨first, second, kept.at? held, kept.textAt firstText, kept.textAt secondText⟩

theorem Extends.memberAt
    {member : Member}
    (kept : Extends entries longer)
    (found : memberAt entries index = .ok member) :
    Entry.memberAt longer index = .ok member := by
  obtain ⟨kind, owner, pair, held, ownerName, pairNames⟩ := memberAt_eq_ok_iff.mp found
  exact memberAt_eq_ok_iff.mpr
    ⟨kind, owner, pair, kept.at? held, kept.classNameAt ownerName, kept.nameAndTypeAt pairNames⟩

theorem Extends.dynamicAt
    {names : String × String}
    (kept : Extends entries longer)
    (found : dynamicAt entries index = .ok names) :
    Entry.dynamicAt longer index = .ok names := by
  obtain ⟨bootstrap, pair, held, pairNames⟩ := dynamicAt_eq_ok_iff.mp found
  exact dynamicAt_eq_ok_iff.mpr
    ⟨bootstrap, pair, held.imp kept.at? kept.at?, kept.nameAndTypeAt pairNames⟩

/-- A lookup whose result is not needed passes exactly if it finds something. -/
theorem discard_eq_ok_iff
    {α : Type}
    {lookup : Except ReadError α} :
    (lookup >>= fun _ => pure ()) = .ok () ↔ ∃ value, lookup = .ok value := by
  simp [bind_eq_ok_iff, pure, Except.pure]

/-- An entry whose references lead somewhere keeps leading there. -/
theorem Extends.check
    {entry : Entry}
    (kept : Extends entries longer)
    (checked : check entries entry = .ok ()) :
    Entry.check longer entry = .ok () := by
  cases entry with
  | unusable | utf8 _ | integer _ | float _ | long _ | double _ => rfl
  | classRef | string | methodType | moduleName | packageName =>
      obtain ⟨text, found⟩ := discard_eq_ok_iff.mp checked
      exact discard_eq_ok_iff.mpr ⟨text, kept.textAt found⟩
  | methodHandle =>
      obtain ⟨member, found⟩ := discard_eq_ok_iff.mp checked
      exact discard_eq_ok_iff.mpr ⟨member, kept.memberAt found⟩
  | dynamic | invokeDynamic =>
      obtain ⟨names, found⟩ := discard_eq_ok_iff.mp checked
      exact discard_eq_ok_iff.mpr ⟨names, kept.nameAndTypeAt found⟩
  | nameAndType =>
      obtain ⟨name, nameFound, others⟩ := bind_eq_ok_iff.mp checked
      obtain ⟨descriptor, descriptorFound⟩ := discard_eq_ok_iff.mp others
      exact bind_eq_ok_iff.mpr
        ⟨name, kept.textAt nameFound,
          discard_eq_ok_iff.mpr ⟨descriptor, kept.textAt descriptorFound⟩⟩
  | member =>
      obtain ⟨owner, ownerFound, others⟩ := bind_eq_ok_iff.mp checked
      obtain ⟨names, namesFound⟩ := discard_eq_ok_iff.mp others
      exact bind_eq_ok_iff.mpr
        ⟨owner, kept.classNameAt ownerFound,
          discard_eq_ok_iff.mpr ⟨names, kept.nameAndTypeAt namesFound⟩⟩

end JvmClass.Entry
