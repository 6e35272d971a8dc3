import TreeToCpp.Layout

/-!
# What a user can choose about the generated text

The choices concern layout and the name of one namespace. None of them decides whether a program
can be written in C++.
-/

namespace TreeToCpp

/-- The namespace around the declarations of a program where nothing else is asked for. -/
def defaultNamespace : String := "fax_app"

/-- What a user can choose about the generated text. -/
structure Options where
  /-- The number of spaces of one level of indentation. -/
  indentWidth : Nat := Layout.defaultIndentWidth
  /-- The namespace around the declarations of the program. -/
  namespaceName : String := defaultNamespace
  /-- Whether a comment at the top says where the text comes from. -/
  banner : Bool := true
  /-- Whether every function has a comment with its name. -/
  docComments : Bool := true
  deriving DecidableEq, Repr

end TreeToCpp
