import TreeToCpp.Identifier

/-!
# The namespace that a user asks for

The namespace becomes part of the generated text, so it has to be an identifier and not a word that
C++ keeps for itself.
-/

namespace TreeToCpp.CommandLine

/-- Why a namespace is refused. -/
inductive NamespaceError where
  | notIdentifier (name : String)
  | reserved (name : String)
  deriving DecidableEq, Repr

/-- The reason in words. -/
def NamespaceError.message : NamespaceError → String
  | .notIdentifier name => "Invalid namespace '" ++ name ++ "': expected a C++ identifier"
  | .reserved name => "Invalid namespace '" ++ name ++ "': C++ reserved word"

/-- Accepts the names that can stand for a namespace. -/
def checkNamespace (name : String) : Except NamespaceError Unit :=
  if !isIdentifier name then .error (.notIdentifier name)
  else if isReserved name then .error (.reserved name)
  else .ok ()

end TreeToCpp.CommandLine
