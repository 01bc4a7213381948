namespace JvmClass

/-!
# Names of classes and arrays

Where a class is expected, an array stands with its descriptor: a `[` and the
descriptor of the component, in which a class is written `Lname;`.
-/

/-- The root of every class hierarchy. -/
def objectName : String := "java/lang/Object"

/-- The root of all exceptions. -/
def throwableName : String := "java/lang/Throwable"

namespace ClassName

/-- The characters between a leading `L` and a trailing `;`. -/
def insideReference? : List Char → Option (List Char)
  | 'L' :: rest => if rest.getLast? = some ';' then some rest.dropLast else none
  | _ => none

/-- The class or array that an array holds, given what follows its first `[`. -/
def component? : List Char → Option (List Char)
  | '[' :: rest => some ('[' :: rest)
  | element => insideReference? element

/-- The name of the array of a class or array. -/
def arrayOf (name : List Char) : List Char :=
  match name with
  | '[' :: _ => '[' :: name
  | _ => '[' :: 'L' :: name ++ [';']

/-- The component of an array is no longer than what follows its first `[`. -/
theorem component?_length_le {element component : List Char}
    (found : component? element = some component) :
    component.length ≤ element.length := by
  unfold component? at found
  split at found
  · simp only [Option.some.injEq] at found
    subst found
    exact Nat.le_refl _
  · unfold insideReference? at found
    split at found
    · split at found
      · simp only [Option.some.injEq] at found
        subst found
        simp only [List.length_dropLast, List.length_cons]
        omega
      · simp at found
    · simp at found

end ClassName
end JvmClass
