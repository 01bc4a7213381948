import JvmClass.Hierarchy

namespace JvmClass

/-!
# Platform classes

Classes that often meet where control flow joins: the exceptions that handlers
catch, strings, boxes and the collection interfaces.  Every hierarchy that a
class is written against starts with them.
-/

namespace SuperclassTable

/-- Platform classes with their superclasses. -/
def platformClasses : List (String × String) :=
  [ (throwableName, objectName),
    ("java/lang/Exception", throwableName),
    ("java/lang/Error", throwableName),
    ("java/lang/RuntimeException", "java/lang/Exception"),
    ("java/lang/InterruptedException", "java/lang/Exception"),
    ("java/lang/ReflectiveOperationException", "java/lang/Exception"),
    ("java/lang/CloneNotSupportedException", "java/lang/Exception"),
    ("java/io/IOException", "java/lang/Exception"),
    ("java/lang/ClassNotFoundException", "java/lang/ReflectiveOperationException"),
    ("java/io/UncheckedIOException", "java/lang/RuntimeException"),
    ("java/lang/IllegalArgumentException", "java/lang/RuntimeException"),
    ("java/lang/IllegalStateException", "java/lang/RuntimeException"),
    ("java/lang/NullPointerException", "java/lang/RuntimeException"),
    ("java/lang/ArithmeticException", "java/lang/RuntimeException"),
    ("java/lang/ClassCastException", "java/lang/RuntimeException"),
    ("java/lang/IndexOutOfBoundsException", "java/lang/RuntimeException"),
    ("java/lang/UnsupportedOperationException", "java/lang/RuntimeException"),
    ("java/lang/NumberFormatException", "java/lang/IllegalArgumentException"),
    ("java/lang/ArrayIndexOutOfBoundsException", "java/lang/IndexOutOfBoundsException"),
    ("java/lang/StringIndexOutOfBoundsException", "java/lang/IndexOutOfBoundsException"),
    ("java/io/FileNotFoundException", "java/io/IOException"),
    ("java/lang/AssertionError", "java/lang/Error"),
    ("java/lang/LinkageError", "java/lang/Error"),
    ("java/lang/String", objectName),
    ("java/lang/StringBuilder", objectName),
    ("java/lang/Class", objectName),
    ("java/lang/Number", objectName),
    ("java/lang/Boolean", objectName),
    ("java/lang/Character", objectName),
    ("java/lang/Byte", "java/lang/Number"),
    ("java/lang/Short", "java/lang/Number"),
    ("java/lang/Integer", "java/lang/Number"),
    ("java/lang/Long", "java/lang/Number"),
    ("java/lang/Float", "java/lang/Number"),
    ("java/lang/Double", "java/lang/Number") ]

/-- Platform interfaces. -/
def platformInterfaces : List String :=
  [ "java/lang/Cloneable",
    "java/io/Serializable",
    "java/lang/Comparable",
    "java/lang/CharSequence",
    "java/lang/Iterable",
    "java/lang/Runnable",
    "java/util/Collection",
    "java/util/List",
    "java/util/Set",
    "java/util/Map" ]

/-- The table of the platform classes and interfaces. -/
def platform : SuperclassTable :=
  platformInterfaces.foldl (fun table name => table.insert name ClassInfo.anInterface)
    (platformClasses.foldl
      (fun table (name, superName) => table.insert name (ClassInfo.aClass superName)) empty)

/-- The platform table with one more class, unless its name is empty or that of the root. -/
def forClass (name : String) (superName : Option String) (access : UInt16) : SuperclassTable :=
  if name = "" ∨ name = objectName then
    platform
  else
    platform.insert name ⟨some (superName.getD objectName), Access.isInterface access⟩

end SuperclassTable
end JvmClass
