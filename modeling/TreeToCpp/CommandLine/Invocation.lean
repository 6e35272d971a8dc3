import TreeToCpp.Options

/-!
# What a user asks for

Understood arguments are an invocation; all others are refused for one of a few reasons. A request
for help or for the version is among them, since it gives no invocation either.
-/

namespace TreeToCpp.CommandLine

/-- What a user asks for. -/
structure Invocation where
  /-- The document to read. -/
  input : String
  /-- The file to write; without one the text is printed. -/
  output : Option String
  /-- Whether the text is only generated and then dropped. -/
  check : Bool
  /-- What the text looks like. -/
  options : Options
  deriving DecidableEq, Repr

/-- Why the arguments give no invocation. -/
inductive UsageError where
  /-- An option that does not exist, or a second input file. -/
  | unknownArgument
  /-- A value is missing, or a path is empty. -/
  | invalidValue
  /-- A number is not one. -/
  | badNumber
  /-- A flag is given a value. -/
  | unexpectedValue
  /-- An option is given twice, or with one that excludes it. -/
  | conflict
  /-- There is no input file. -/
  | missingInput
  /-- The user asks for help. -/
  | helpRequested
  /-- The user asks for the version. -/
  | versionRequested
  deriving DecidableEq, Repr

end TreeToCpp.CommandLine
