/-!
# Diagnostics

What a user is told about a failure: a code that names the class of the failure, a message, and
sometimes a line of advice.
-/

namespace TreeToCpp

/-- What a user is told about a failure. -/
structure Diagnostic where
  /-- The class of the failure. -/
  code : String
  /-- What happened. -/
  message : String
  /-- What can be done about it. -/
  help : Option String
  deriving DecidableEq, Repr

/-- The diagnostic as it is printed: code and message on one line, the advice on a second. -/
def Diagnostic.text (d : Diagnostic) : String :=
  "error[" ++ d.code ++ "]: " ++ d.message ++
    match d.help with
    | some help => "\n  help: " ++ help
    | none => ""

end TreeToCpp
