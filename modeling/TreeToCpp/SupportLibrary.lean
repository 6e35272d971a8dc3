/-!
# The support library of generated programs

Generated programs lean on a small C++ library that supplies containers and printing. Nothing here
defines that library; these are the names under which a generated program refers to it.

## Main definitions

* `Helper` — the functions of the library that a source program calls by a bare name
* `arrayType`, `pointerType`, `remainderFunction` — the C++ spellings of built-in operations
-/

namespace TreeToCpp

namespace SupportLibrary

/-- The namespace of the library. -/
def namespaceName : String := "fax_std"

/-- The header that declares the library. -/
def header : String := "fax_runtime.hpp"

/-- The growable array, a template of one type. -/
def arrayType : String := "fax_std::Array"

/-- The owning pointer, a template of one type. -/
def pointerType : String := "fax_std::Ptr"

/-- The remainder of a floating-point division. -/
def remainderFunction : String := "std::fmod"

/-- Standard headers that every generated program includes after the library's own. -/
def standardHeaders : List String := ["<cmath>"]

/-- What is put behind the path of an imported module to name its header. -/
def headerExtension : String := ".hpp"

end SupportLibrary

/-- A library function that a source program calls by a bare name. -/
inductive Helper where
  /-- Prints its arguments on one line. -/
  | println
  deriving DecidableEq, Repr

namespace Helper

/-- Every helper, in the order of the documentation. -/
def all : List Helper := [.println]

/-- The name at a call site of the source program. -/
def name : Helper → String
  | .println => "println"

/-- The qualified name in the generated program. -/
def qualified : Helper → String
  | .println => "fax_std::println"

/-- One line of documentation. -/
def description : Helper → String
  | .println => "Print space-separated values followed by a newline to stdout."

/-- The helper of a given name. -/
def ofName? (name : String) : Option Helper :=
  all.find? (·.name == name)

end Helper

end TreeToCpp
