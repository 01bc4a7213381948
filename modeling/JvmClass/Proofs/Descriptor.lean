import JvmClass.Descriptor
import Mathlib.Algebra.GroupWithZero.Nat
import Mathlib.Data.List.TakeWhile

namespace JvmClass

/-!
# Descriptors are read as they are spelled

Reading stops where the spelling of a type ends, whatever stands behind it, so
types can be read one after another.  What is read is spelled by the characters
that it was read off, and by no others.
-/

/-- The class names in a type end where a descriptor says they do. -/
def FieldType.Spellable : FieldType → Prop
  | .object name => name ≠ "" ∧ ';' ∉ name.toList
  | .array element => element.Spellable
  | .boolean | .byte | .char | .short | .int | .float | .long | .double => True

/-- Every parameter type and the result can be spelled. -/
structure MethodType.Spellable (type : MethodType) : Prop where
  params : ∀ param ∈ type.params, param.Spellable
  result : ∀ result, type.result = some result → result.Spellable

namespace FieldType

/-! ## Types -/

/-- A letter spells the type that it stands for. -/
theorem spelled_of_primitive
    {letter : Char}
    {type : FieldType}
    (found : primitive? letter = some type) :
    type.Spellable ∧ type.descriptorChars = [letter] := by
  unfold primitive? at found
  split at found
  all_goals
    cases found
    try exact ⟨trivial, rfl⟩

/-- A class name is read up to its semicolon. -/
theorem parse?_object
    {name : String}
    (spellable : (object name).Spellable)
    (rest : List Char) :
    parse? ('L' :: (name.toList ++ ';' :: rest)) = some (.object name, rest) := by
  obtain ⟨nonempty, unbroken⟩ := spellable
  have inName : ∀ letter ∈ name.toList, decide (letter ≠ ';') = true := by
    intro letter member
    exact decide_eq_true fun isEnd => unbroken (isEnd ▸ member)
  have taken : (name.toList ++ ';' :: rest).takeWhile (· ≠ ';') = name.toList := by
    rw [List.takeWhile_append_of_pos inName]
    simp
  have left : (name.toList ++ ';' :: rest).dropWhile (· ≠ ';') = ';' :: rest := by
    rw [List.dropWhile_append_of_pos inName]
    simp
  have named : name.toList.isEmpty = false := by
    simpa using nonempty
  simp only [parse?, taken, left, named, Bool.false_eq_true, if_false, String.ofList_toList]

/-- A type is read off its descriptor, and what stands behind it is left. -/
theorem parse?_append
    {type : FieldType}
    (spellable : type.Spellable)
    (rest : List Char) :
    parse? (type.descriptorChars ++ rest) = some (type, rest) := by
  induction type with
  | object name =>
      have shape :
          (object name).descriptorChars ++ rest = 'L' :: (name.toList ++ ';' :: rest) := by
        simp [descriptorChars]
      rw [shape, parse?_object spellable]
  | array element inductionHypothesis =>
      simp only [descriptorChars, List.cons_append, parse?, inductionHypothesis spellable]
  | _ => rfl

/-- What is read is spelled by the characters read. -/
theorem spelled_of_parse?
    {chars rest : List Char}
    {type : FieldType}
    (parsed : parse? chars = some (type, rest)) :
    type.Spellable ∧ chars = type.descriptorChars ++ rest := by
  fun_induction parse? chars generalizing type with
  | case1 => cases parsed
  | case2 tail element after inner inductionHypothesis =>
      cases parsed
      obtain ⟨spellable, shape⟩ := inductionHypothesis inner
      exact ⟨spellable, by rw [shape]; rfl⟩
  | case3 => cases parsed
  | case4 => cases parsed
  | case5 tail name stop after dropped =>
      rename_i nonempty
      cases parsed
      have whole : tail = name ++ stop :: rest := by
        rw [← dropped, List.takeWhile_append_dropWhile]
      have isEnd : stop = ';' := by
        have failed := List.head?_dropWhile_not (fun letter => decide (letter ≠ ';')) tail
        rw [dropped] at failed
        simpa using failed
      refine ⟨⟨?_, ?_⟩, ?_⟩
      · simpa using nonempty
      · intro broken
        have inName := List.mem_takeWhile_imp (String.toList_ofList ▸ broken)
        simp at inName
      · simp [whole, isEnd, descriptorChars]
  | case6 => cases parsed
  | case7 letter tail _ _ =>
      obtain ⟨_, found, same⟩ := Option.map_eq_some_iff.mp parsed
      cases same
      obtain ⟨spellable, spelled⟩ := spelled_of_primitive found
      exact ⟨spellable, by rw [spelled]; rfl⟩

/-- A type is read off some characters exactly if they begin with its descriptor. -/
theorem parse?_eq_some_iff
    {chars rest : List Char}
    {type : FieldType} :
    parse? chars = some (type, rest) ↔
      type.Spellable ∧ chars = type.descriptorChars ++ rest := by
  constructor
  · exact spelled_of_parse?
  · rintro ⟨spellable, rfl⟩
    exact parse?_append spellable rest

/-- A whole text is read as a type exactly if it is the descriptor of the type. -/
theorem ofDescriptor_eq_ok_iff
    {text : String}
    {type : FieldType} :
    ofDescriptor text = .ok type ↔ type.Spellable ∧ text = type.descriptor := by
  have spelled :
      parse? text.toList = some (type, []) ↔ type.Spellable ∧ text = type.descriptor := by
    rw [parse?_eq_some_iff, List.append_nil, descriptor, ← @String.toList_inj text,
      String.toList_ofList]
  rw [← spelled]
  unfold ofDescriptor
  split
  · rename_i found parsed
    simp [parsed]
  · rename_i unread
    simp only [reduceCtorEq, false_iff]
    exact unread type

/-- A text is refused, as it is, exactly if it is the descriptor of no type. -/
theorem ofDescriptor_eq_error_iff
    {text : String} :
    ofDescriptor text = .error ⟨text⟩ ↔
      ¬ ∃ type : FieldType, type.Spellable ∧ text = type.descriptor := by
  simp only [← ofDescriptor_eq_ok_iff]
  constructor
  · rintro refused ⟨type, read⟩
    simp [refused] at read
  · intro unread
    unfold ofDescriptor at unread ⊢
    split
    · rename_i type parsed
      simp [parsed] at unread
    · rfl

/-- No value takes more than two slots. -/
theorem size_le (type : FieldType) : type.size ≤ 2 := by
  cases type <;> simp [size]

/-- No descriptor begins like the end of a list of parameters. -/
theorem exists_descriptorChars_eq_cons (type : FieldType) :
    ∃ first rest, type.descriptorChars = first :: rest ∧ first ≠ ')' ∧ first ≠ 'V' := by
  cases type <;> exact ⟨_, _, rfl, by decide, by decide⟩

end FieldType

namespace MethodType

/-! ## Method types -/

theorem parseParams?_close
    (done : List FieldType)
    (rest : List Char) :
    parseParams? done (')' :: rest) = some (done.reverse, rest) := by
  rw [parseParams?]

/-- In front of the closing parenthesis one more type is read. -/
theorem parseParams?_of_ne_close
    {done : List FieldType}
    {first : Char}
    {rest : List Char}
    (isType : first ≠ ')') :
    parseParams? done (first :: rest) =
      (FieldType.parse? (first :: rest)).bind fun (type, rest) =>
        parseParams? (type :: done) rest := by
  rw [parseParams?]
  · split
    · rename_i parsed
      rw [parsed]
      rfl
    · rename_i unread
      rw [unread]
      rfl
  · rintro rest ⟨⟩
    exact isType rfl

/-- Parameter types are read one behind the other up to the closing parenthesis. -/
theorem parseParams?_append
    {params : List FieldType}
    (spellable : ∀ param ∈ params, param.Spellable)
    (done : List FieldType)
    (rest : List Char) :
    parseParams? done (params.flatMap FieldType.descriptorChars ++ ')' :: rest) =
      some (done.reverse ++ params, rest) := by
  induction params generalizing done with
  | nil => simpa using parseParams?_close done rest
  | cons param params inductionHypothesis =>
      rw [List.forall_mem_cons] at spellable
      obtain ⟨first, later, spelled, isType, _⟩ := param.exists_descriptorChars_eq_cons
      have read := FieldType.parse?_append spellable.1
        (params.flatMap FieldType.descriptorChars ++ ')' :: rest)
      rw [List.flatMap_cons, List.append_assoc]
      rw [spelled, List.cons_append] at read ⊢
      rw [parseParams?_of_ne_close isType, read, Option.bind_some]
      simpa using inductionHypothesis spellable.2 (param :: done)

/-- Parameter types that are read are spelled in their order. -/
theorem spelled_of_parseParams?
    {done params : List FieldType}
    {chars rest : List Char}
    (parsed : parseParams? done chars = some (params, rest)) :
    ∃ later,
      params = done.reverse ++ later ∧ (∀ param ∈ later, param.Spellable) ∧
        chars = later.flatMap FieldType.descriptorChars ++ ')' :: rest := by
  fun_induction parseParams? done chars with
  | case1 done tail =>
      cases parsed
      exact ⟨[], by simp, by simp, rfl⟩
  | case2 done chars _ type after read inductionHypothesis =>
      obtain ⟨later, rfl, spellable, shape⟩ := inductionHypothesis parsed
      obtain ⟨typeSpellable, rfl⟩ := FieldType.spelled_of_parse? read
      refine ⟨type :: later, by simp, ?_, by simp [shape]⟩
      exact List.forall_mem_cons.mpr ⟨typeSpellable, spellable⟩
  | case3 => cases parsed

/-- A descriptor is a parenthesis, the parameters, another one and the result. -/
theorem descriptor_eq (type : MethodType) :
    type.descriptor =
      "(" ++ String.join (type.params.map FieldType.descriptor) ++ ")" ++
        (type.result.map FieldType.descriptor).getD "V" := by
  have params :
      (type.params.map FieldType.descriptor).flatMap String.toList =
        type.params.flatMap FieldType.descriptorChars := by
    simp [List.flatMap_map, FieldType.descriptor]
  rw [descriptor, ← String.toList_inj, String.toList_ofList]
  cases result : type.result with
  | none => simp [params]
  | some result => simp [params, FieldType.descriptor]

/-- A text has the characters of a descriptor exactly if it is the descriptor. -/
theorem toList_eq_iff
    {type : MethodType}
    {text : String} :
    text.toList =
        '(' :: (type.params.flatMap FieldType.descriptorChars ++
          ')' :: (type.result.map FieldType.descriptorChars).getD ['V']) ↔
      text = type.descriptor := by
  rw [descriptor, ← @String.toList_inj text, String.toList_ofList, List.cons_append]

/-- A method type is read off its descriptor. -/
theorem ofDescriptor_descriptor
    {type : MethodType}
    (spellable : type.Spellable) :
    ofDescriptor type.descriptor = .ok type := by
  have chars := toList_eq_iff.mpr (rfl : type.descriptor = type.descriptor)
  obtain ⟨params, result⟩ := type
  unfold ofDescriptor
  simp only [chars, parseParams?_append spellable.params, List.reverse_nil, List.nil_append]
  cases result with
  | none => rfl
  | some result =>
      obtain ⟨first, later, shape, _, isType⟩ := result.exists_descriptorChars_eq_cons
      have read := FieldType.parse?_append (spellable.result result rfl) []
      rw [List.append_nil] at read
      simp only [Option.map_some, Option.getD_some]
      split
      · rename_i isVoid
        simp only [Option.some.injEq, Prod.mk.injEq] at isVoid
        simp [shape, isType] at isVoid
      · rename_i params rest _ same
        simp only [Option.some.injEq, Prod.mk.injEq] at same
        obtain ⟨rfl, rfl⟩ := same
        simp only [read]
      · rename_i unread
        cases unread

/-- A method type that is read is spelled by what it was read off. -/
theorem spelled_of_ofDescriptor
    {type : MethodType}
    {text : String}
    (read : ofDescriptor text = .ok type) :
    type.Spellable ∧ text = type.descriptor := by
  rw [← toList_eq_iff]
  unfold ofDescriptor at read
  split at read
  · rename_i rest opened
    split at read
    · rename_i params parsed
      cases read
      obtain ⟨later, rfl, spellable, shape⟩ := spelled_of_parseParams? parsed
      exact ⟨⟨by simpa using spellable, nofun⟩, by simpa [opened] using shape⟩
    · rename_i params after _ parsed
      split at read
      · rename_i result readResult
        cases read
        obtain ⟨later, rfl, spellable, shape⟩ := spelled_of_parseParams? parsed
        obtain ⟨resultSpellable, rfl⟩ := FieldType.spelled_of_parse? readResult
        refine ⟨⟨by simpa using spellable, ?_⟩, by simpa [opened] using shape⟩
        rintro _ ⟨⟩
        exact resultSpellable
      · cases read
    · cases read
  · cases read

/-- A whole text is read as a method type exactly if it is the descriptor of the type. -/
theorem ofDescriptor_eq_ok_iff
    {text : String}
    {type : MethodType} :
    ofDescriptor text = .ok type ↔ type.Spellable ∧ text = type.descriptor := by
  constructor
  · exact spelled_of_ofDescriptor
  · rintro ⟨spellable, rfl⟩
    exact ofDescriptor_descriptor spellable

/-- A text is refused, as it is, exactly if it is the descriptor of no method type. -/
theorem ofDescriptor_eq_error_iff
    {text : String} :
    ofDescriptor text = .error ⟨text⟩ ↔
      ¬ ∃ type : MethodType, type.Spellable ∧ text = type.descriptor := by
  simp only [← ofDescriptor_eq_ok_iff]
  constructor
  · rintro refused ⟨type, read⟩
    simp [refused] at read
  · intro unread
    cases read : ofDescriptor text with
    | ok type => exact absurd ⟨type, read⟩ unread
    | error fault =>
        unfold ofDescriptor at read
        repeat' split at read
        all_goals cases read
        all_goals rfl

/-! ## Slots of arguments -/

/-- The slots of the parameters together, however many there are. -/
def paramSize (type : MethodType) : Nat :=
  (type.params.map FieldType.size).sum

/-- The slots of the result, none for `void`. -/
def resultSize (type : MethodType) : Nat :=
  (type.result.map FieldType.size).getD 0

/-- The slots of the arguments, however many there are. -/
def argumentSize (type : MethodType) (isStatic : Bool) : Nat :=
  type.paramSize + if isStatic then 0 else 1

/-- Sixteen bits of the number of slots are counted. -/
theorem paramSlots_eq
    (type : MethodType) :
    type.paramSlots = UInt16.ofNat type.paramSize := by
  have counted (params : List FieldType) (slots : UInt16) :
      (params.map fun param => UInt16.ofNat param.size).foldl (· + ·) slots =
        slots + UInt16.ofNat (params.map FieldType.size).sum := by
    induction params generalizing slots with
    | nil => simp
    | cons param params inductionHypothesis =>
        rw [List.map_cons, List.foldl_cons, inductionHypothesis, List.map_cons, List.sum_cons,
          UInt16.ofNat_add, UInt16.add_assoc]
  rw [paramSlots, counted, UInt16.zero_add, paramSize]

/-- A result takes two slots at most. -/
theorem toNat_resultSlots_le (type : MethodType) : type.resultSlots.toNat ≤ 2 := by
  have size : (type.result.map FieldType.size).getD 0 ≤ 2 := by
    cases type.result with
    | none => exact Nat.zero_le 2
    | some result => exact result.size_le
  rw [resultSlots, UInt16.toNat_ofNat']
  exact Nat.le_trans (Nat.mod_le _ _) size

theorem argumentSlots_eq
    (type : MethodType)
    (isStatic : Bool) :
    type.argumentSlots isStatic = UInt16.ofNat (type.argumentSize isStatic) := by
  rw [argumentSlots, argumentSize, paramSlots_eq, UInt16.ofNat_add]
  cases isStatic <;> rfl

/-- No more slots are counted than there are. -/
theorem toNat_argumentSlots_le
    (type : MethodType)
    (isStatic : Bool) :
    (type.argumentSlots isStatic).toNat ≤ type.argumentSize isStatic := by
  rw [argumentSlots_eq, UInt16.toNat_ofNat']
  exact Nat.mod_le _ _

end MethodType

/--
A text is read as a type exactly if it is the descriptor of that type, and as a
method type exactly if it lists the descriptors of the parameters between
parentheses and ends with that of the result, which alone can be void.  Every
other text is refused.
-/
theorem FieldType.read_iff_spelled :
    (∀ (text : String) (type : FieldType),
      FieldType.ofDescriptor text = .ok type ↔ type.Spellable ∧ text = type.descriptor) ∧
      (∀ text : String,
        FieldType.ofDescriptor text = .error ⟨text⟩ ↔
          ¬ ∃ type : FieldType, type.Spellable ∧ text = type.descriptor) ∧
      (∀ (text : String) (type : MethodType),
        MethodType.ofDescriptor text = .ok type ↔ type.Spellable ∧ text = type.descriptor) ∧
      (∀ text : String,
        MethodType.ofDescriptor text = .error ⟨text⟩ ↔
          ¬ ∃ type : MethodType, type.Spellable ∧ text = type.descriptor) ∧
      ∀ type : MethodType,
        type.descriptor =
          "(" ++ String.join (type.params.map FieldType.descriptor) ++ ")" ++
            (type.result.map FieldType.descriptor).getD "V" :=
  ⟨fun _ _ => ofDescriptor_eq_ok_iff, fun _ => ofDescriptor_eq_error_iff,
    fun _ _ => MethodType.ofDescriptor_eq_ok_iff, fun _ => MethodType.ofDescriptor_eq_error_iff,
    MethodType.descriptor_eq⟩

/-- Nested arrays, wide values and a class are read back; a void parameter is refused. -/
example :
    MethodType.ofDescriptor "(J[[LA;)[D" =
        .ok ⟨[.long, .array (.array (.object "A"))], some (.array .double)⟩ ∧
      MethodType.ofDescriptor "(V)V" = .error ⟨"(V)V"⟩ := by
  decide +kernel

end JvmClass
