namespace JvmClass

/-!
# Field and method descriptors

A descriptor spells a type in one line: a letter for each primitive type,
`Lname;` for a class and a `[` in front for an array.  A method descriptor
lists the parameter types between parentheses and ends with the result.
-/

/-- A type that a field, a parameter or a result can have. -/
inductive FieldType where
  | boolean
  | byte
  | char
  | short
  | int
  | float
  | long
  | double
  | object (name : String)
  | array (element : FieldType)
  deriving Repr, DecidableEq

/-- The parameter types of a method and its result, which is absent for `void`. -/
structure MethodType where
  params : List FieldType
  result : Option FieldType
  deriving Repr, DecidableEq

/-- A text that is no descriptor of the kind asked for. -/
structure InvalidDescriptor where
  text : String
  deriving Repr, DecidableEq

namespace FieldType

/-- How many local variable or operand stack slots a value takes. -/
def size : FieldType → Nat
  | .long | .double => 2
  | _ => 1

/-- The characters of a type's descriptor. -/
def descriptorChars : FieldType → List Char
  | .boolean => ['Z']
  | .byte => ['B']
  | .char => ['C']
  | .short => ['S']
  | .int => ['I']
  | .float => ['F']
  | .long => ['J']
  | .double => ['D']
  | .object name => 'L' :: name.toList ++ [';']
  | .array element => '[' :: element.descriptorChars

/-- The descriptor of a type. -/
def descriptor (type : FieldType) : String :=
  String.ofList type.descriptorChars

/-- The primitive type of a letter. -/
def primitive? : Char → Option FieldType
  | 'Z' => some .boolean
  | 'B' => some .byte
  | 'C' => some .char
  | 'S' => some .short
  | 'I' => some .int
  | 'F' => some .float
  | 'J' => some .long
  | 'D' => some .double
  | _ => none

/-- Reads one type off the front and returns the rest.  A class name is not empty. -/
def parse? : List Char → Option (FieldType × List Char)
  | [] => none
  | '[' :: rest =>
      match parse? rest with
      | some (element, rest) => some (.array element, rest)
      | none => none
  | 'L' :: rest =>
      let name := rest.takeWhile (· ≠ ';')
      match rest.dropWhile (· ≠ ';') with
      | _ :: after => if name.isEmpty then none else some (.object (String.ofList name), after)
      | [] => none
  | letter :: rest => (primitive? letter).map (·, rest)

/-- Reading a type uses up at least one character. -/
theorem parse?_length_lt {chars rest : List Char} {type : FieldType}
    (parsed : parse? chars = some (type, rest)) :
    rest.length < chars.length := by
  fun_induction parse? chars generalizing type with
  | case1 => simp at parsed
  | case2 tail element after inner ih =>
    simp only [Option.some.injEq, Prod.mk.injEq] at parsed
    obtain ⟨_, rfl⟩ := parsed
    have shorter := ih inner
    simp only [List.length_cons]
    omega
  | case3 => simp at parsed
  | case4 => simp at parsed
  | case5 tail name _ _ dropped =>
    simp only [Option.some.injEq, Prod.mk.injEq] at parsed
    obtain ⟨_, rfl⟩ := parsed
    have dropped_le := (List.dropWhile_sublist (l := tail) (· ≠ ';')).length_le
    rw [dropped] at dropped_le
    simp only [List.length_cons] at dropped_le ⊢
    omega
  | case6 => simp at parsed
  | case7 letter tail _ _ =>
    simp only [Option.map_eq_some_iff, Prod.mk.injEq] at parsed
    obtain ⟨_, _, _, rfl⟩ := parsed
    simp

/-- The type that a whole text spells. -/
def ofDescriptor (text : String) : Except InvalidDescriptor FieldType :=
  match parse? text.toList with
  | some (type, []) => .ok type
  | _ => .error ⟨text⟩

end FieldType

namespace MethodType

/-- The descriptor of a method type. -/
def descriptor (type : MethodType) : String :=
  String.ofList <|
    '(' :: type.params.flatMap FieldType.descriptorChars
      ++ ')' :: (type.result.map FieldType.descriptorChars).getD ['V']

/-- Reads parameter types up to the closing parenthesis, after those in `done`, which is reversed. -/
def parseParams? (done : List FieldType) (chars : List Char) :
    Option (List FieldType × List Char) :=
  match chars with
  | ')' :: rest => some (done.reverse, rest)
  | chars =>
      match _parsed : FieldType.parse? chars with
      | some (type, rest) => parseParams? (type :: done) rest
      | none => none
  termination_by chars.length
  decreasing_by exact FieldType.parse?_length_lt ‹_›

/-- The method type that a whole text spells.  Only a result can be `void`. -/
def ofDescriptor (text : String) : Except InvalidDescriptor MethodType :=
  match text.toList with
  | '(' :: rest =>
      match parseParams? [] rest with
      | some (params, ['V']) => .ok ⟨params, none⟩
      | some (params, rest) =>
          match FieldType.parse? rest with
          | some (type, []) => .ok ⟨params, some type⟩
          | _ => .error ⟨text⟩
      | none => .error ⟨text⟩
  | _ => .error ⟨text⟩

/-- The slots of the parameters together.  Slots are counted with sixteen bits. -/
def paramSlots (type : MethodType) : UInt16 :=
  (type.params.map fun param => UInt16.ofNat param.size).foldl (· + ·) 0

/-- The slots of the result, none for `void`. -/
def resultSlots (type : MethodType) : UInt16 :=
  UInt16.ofNat ((type.result.map FieldType.size).getD 0)

/-- The slots of the arguments, the receiver included unless the method is static. -/
def argumentSlots (type : MethodType) (isStatic : Bool) : UInt16 :=
  type.paramSlots + if isStatic then 0 else 1

end MethodType
end JvmClass
