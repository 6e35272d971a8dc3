import TreeToCpp.Names.Registry
import TreeToCpp.SupportLibrary
import TreeToCpp.Trimming

/-!
# Type annotations

An annotation is a core name with wrappers around it: `T[]` is an array, `ptr<T>` an owning
pointer and `ref<T>` a reference. Blank characters may stand around the whole and around every
part. The wrappers are looked for in that order, so `ptr<int>[]` is an array of pointers.

Reading an annotation gives a term, and the C++ type is built from the term. A core is a blank
annotation, a structure of the program, a primitive type, or a name that a library is trusted to
supply, in that order.

## Main definitions

* `Wrapper`, `TypeTerm` — what an annotation says
* `TypeTerm.parse` — the term of an annotation
* `TypeTerm.cpp` — the C++ type of a term
* `cppType` — the C++ type of an annotation
-/

namespace TreeToCpp

/-! ## Primitive types -/

/-- A type that is built into the language. -/
inductive Primitive where
  | int
  | float
  | bool
  | string
  | void
  deriving DecidableEq, Repr

namespace Primitive

/-- Every primitive type, in the order of the documentation. -/
def all : List Primitive := [.int, .float, .bool, .string, .void]

/-- The name in an annotation. -/
def name : Primitive → String
  | .int => "int"
  | .float => "float"
  | .bool => "bool"
  | .string => "string"
  | .void => "void"

/-- The C++ type. -/
def cpp : Primitive → String
  | .int => "int"
  | .float => "float"
  | .bool => "bool"
  | .string => "std::string"
  | .void => "void"

/-- One line of documentation. -/
def description : Primitive → String
  | .int => "Builtin signed integer type."
  | .float => "Builtin floating-point type."
  | .bool => "Builtin boolean type."
  | .string => "Builtin owned string type."
  | .void => "Absence of a value (function returns only)."

/-- The primitive type of a name. Names are case sensitive. -/
def ofName? (name : String) : Option Primitive :=
  all.find? (·.name == name)

/-- The C++ type of the primitive type of a name. -/
def cppOfName? (name : String) : Option String :=
  (ofName? name).map cpp

end Primitive

/-! ## Terms -/

/-- What stands around a part of an annotation. -/
inductive Wrapper where
  | array
  | pointer
  | reference
  deriving DecidableEq, Repr

namespace Wrapper

/-- The wrappers in the order in which they are looked for. -/
def all : List Wrapper := [.array, .pointer, .reference]

/-- What stands behind the element type of an array. -/
def arraySuffix : String := "[]"

/-- What stands before the target of a pointer. -/
def pointerOpening : String := "ptr<"

/-- What stands before the target of a reference. -/
def referenceOpening : String := "ref<"

/-- What stands behind the target of a pointer or a reference. -/
def closingAngle : String := ">"

/-- What stands before the wrapped part. -/
def opening : Wrapper → String
  | .array => ""
  | .pointer => pointerOpening
  | .reference => referenceOpening

/-- What stands behind the wrapped part. -/
def closing : Wrapper → String
  | .array => arraySuffix
  | .pointer => closingAngle
  | .reference => closingAngle

/-- The part inside the wrapper, if the text has it on both sides. -/
def strip? (wrapper : Wrapper) (text : List Char) : Option (List Char) :=
  (dropStart? wrapper.opening.toList text).bind (dropEnd? wrapper.closing.toList ·)

/-- The first wrapper that a text has, and the part inside. -/
def unwrap? (text : List Char) : Option (Wrapper × List Char) :=
  all.findSome? fun wrapper => (wrapper.strip? text).map (wrapper, ·)

/-- The C++ type of a wrapped type. -/
def cpp (wrapper : Wrapper) (inner : String) : String :=
  match wrapper with
  | .array => SupportLibrary.arrayType ++ "<" ++ inner ++ ">"
  | .pointer => SupportLibrary.pointerType ++ "<" ++ inner ++ ">"
  | .reference => inner ++ "&"

theorem strip?_eq_some_iff {wrapper : Wrapper} {text inner : List Char} :
    wrapper.strip? text = some inner ↔
      text = wrapper.opening.toList ++ inner ++ wrapper.closing.toList := by
  simp [strip?, Option.bind_eq_some_iff, dropStart?_eq_some_iff, dropEnd?_eq_some_iff]

theorem strip?_of_unwrap? {wrapper : Wrapper} {text inner : List Char}
    (h : unwrap? text = some (wrapper, inner)) : wrapper.strip? text = some inner := by
  obtain ⟨found, _, hfound⟩ := List.exists_of_findSome?_eq_some h
  obtain ⟨part, hpart, heq⟩ := Option.map_eq_some_iff.mp hfound
  cases heq
  exact hpart

theorem length_lt_of_unwrap? {wrapper : Wrapper} {text inner : List Char}
    (h : unwrap? text = some (wrapper, inner)) : inner.length < text.length := by
  rw [strip?_eq_some_iff.mp (strip?_of_unwrap? h)]
  cases wrapper <;> simp [opening, closing, arraySuffix, closingAngle] <;> omega

end Wrapper

/-- What an annotation says. -/
inductive TypeTerm where
  /-- A wrapper around another term. -/
  | wrapped (wrapper : Wrapper) (inner : TypeTerm)
  /-- A name without wrappers, or nothing. -/
  | core (name : String)
  deriving DecidableEq, Repr

/-- The C++ type that is left to be inferred. -/
def inferredType : String := "auto"

namespace TypeTerm

/-- The term of an annotation, given as its characters. -/
def parse (text : List Char) : TypeTerm :=
  match h : Wrapper.unwrap? (trim text) with
  | some (wrapper, inner) =>
    have := Wrapper.length_lt_of_unwrap? h
    have := length_trim_le text
    .wrapped wrapper (parse inner)
  | none => .core (String.ofList (trim text))
termination_by text.length

/-- The C++ type of a core. -/
def coreCpp (registry : Registry) (namespaceName name : String) : String :=
  if name.isEmpty then inferredType
  else if registry.isRecord (mangle name) then namespaceName ++ "::" ++ mangle name
  else (Primitive.cppOfName? name).getD (mangle name)

/-- The C++ type of a term. -/
def cpp (registry : Registry) (namespaceName : String) : TypeTerm → String
  | .wrapped wrapper inner => wrapper.cpp (inner.cpp registry namespaceName)
  | .core name => coreCpp registry namespaceName name

end TypeTerm

/-- The C++ type of an annotation. -/
def cppType (registry : Registry) (namespaceName type : String) : String :=
  (TypeTerm.parse type.toList).cpp registry namespaceName

end TreeToCpp
