import TreeToCpp.CommandLine.Arguments
import TreeToCpp.CommandLine.Disk
import TreeToCpp.CommandLine.Namespace
import TreeToCpp.Document

/-!
# A run of the program

A run reads the arguments and then the document, generates the text and delivers it: to a file, to
standard output, or nowhere when only a check was asked for. The namespace is judged before the
document is touched, and nothing is delivered unless everything before has succeeded.

A run that fails complains, and its complaint carries the exit code. A run that is cut off does not
get that far; its exit code is set from outside.

## Main definitions

* `RunError` — why a run fails
* `Complaint` — what the user is told then, and the exit code
* `Invocation.execute` — the text to print, after the file was written if there is one
* `run` — exit code and output for the arguments
-/

namespace TreeToCpp.CommandLine

/-- Why a run fails after the arguments have been understood. -/
inductive RunError where
  | badNamespace (error : NamespaceError)
  | inaccessible (path : String) (error : OsError)
  | tooLarge (path : String) (size : Nat)
  | unreadable (path : String) (fault : ReadFault)
  | refused (path : String) (failure : Failure)
  | unwritable (path : String) (error : OsError)
  deriving DecidableEq, Repr

/-- The size in bytes that a document may have. -/
def greatestSize : Nat := 100 * 1024 * 1024

/-- What the user is told about a failure, and the exit code that goes with it. -/
structure Complaint where
  message : String
  exitCode : Nat
  deriving DecidableEq, Repr

/-- The exit code of a run that succeeds. -/
def successCode : Nat := 0

/-- The exit code of a run that fails. -/
def failureCode : Nat := 1

/-- The exit code of a run that is cut off. -/
def overflowCode : Nat := 101

/-- A complaint with the exit code of a failure. -/
def Complaint.failure (message : String) : Complaint :=
  { message := message, exitCode := failureCode }

/-- The complaint about an error. -/
def RunError.complaint : RunError → Complaint
  | .badNamespace error => .failure error.message
  | .inaccessible path error =>
    .failure ("Cannot access file '" ++ path ++ "': " ++ error.text)
  | .tooLarge path size =>
    .failure ("AST file '" ++ path ++ "' is too large (" ++ toString size ++ " bytes, max " ++
      toString greatestSize ++ " bytes)")
  | .unreadable path fault => .failure ("Error reading file '" ++ path ++ "': " ++ fault.text)
  | .refused path failure => .failure (path ++ ": " ++ failure.diagnostic.text)
  | .unwritable path error => .failure ("Error writing '" ++ path ++ "': " ++ error.text)

section

variable {m : Type → Type} [Monad m]

/-- Fails with an error. -/
def fail {α : Type} (error : RunError) : ExceptT (Stop RunError) m α :=
  throw (.failure error)

/-- The text of the document. -/
def readDocument (disk : Disk m) (path : String) : ExceptT (Stop RunError) m String := do
  match ← disk.size path with
  | .error error => fail (.inaccessible path error)
  | .ok size =>
    if greatestSize < size then fail (.tooLarge path size)
    else
      match ← disk.read path with
      | .error fault => fail (.unreadable path fault)
      | .ok text => return text

namespace Invocation

/-- The C++ text that an invocation asks for. -/
def generate (disk : Disk m) (invocation : Invocation) : ExceptT (Stop RunError) m String := do
  match checkNamespace invocation.options.namespaceName with
  | .error error => fail (.badNamespace error)
  | .ok () =>
    let document ← readDocument disk invocation.input
    match translate invocation.options document with
    | .error stop => throw (stop.map (.refused invocation.input))
    | .ok text => return text

/-- Carries out an invocation. The result is what is printed. -/
def execute (disk : Disk m) (invocation : Invocation) : ExceptT (Stop RunError) m String := do
  let text ← invocation.generate disk
  match invocation.check, invocation.output with
  | true, _ => return ""
  | false, none => return text
  | false, some path =>
    match ← disk.write path text with
    | .error error => fail (.unwritable path error)
    | .ok () => return ""

end Invocation

end

/-- What is left of a run. -/
structure Outcome where
  exitCode : Nat
  stdout : String
  stderr : String
  deriving DecidableEq, Repr

/-- The name under which the program is called. -/
def programName : String := "faxc"

/-- The version of the program. -/
def programVersion : String := "0.1.0"

/-- The answer to a request for the version. -/
def versionText : String :=
  programName ++ " " ++ programVersion ++ "\n"

/-- The answer to a request for help. -/
def helpText : String :=
  "\n".intercalate [
    "Generate C++ from a Fax-lang JSON AST",
    "",
    "Usage: faxc [OPTIONS] <AST_FILE>",
    "",
    "Arguments:",
    "  <AST_FILE>  JSON AST document produced by the Fax-lang parser",
    "",
    "Options:",
    "  -o, --output <FILE>     Write the generated C++ to FILE instead of stdout",
    "      --namespace <NAME>  Namespace wrapping the program's declarations [default: fax_app]",
    "      --indent-width <N>  Spaces per indentation level [default: 4]",
    "      --no-banner         Omit the leading banner comment",
    "      --no-doc-comments   Omit `/** @brief ... */` lines above functions",
    "      --check             Decode and generate, but print nothing",
    "  -h, --help              Print help",
    "  -V, --version           Print version",
    ""]

/-- A complaint about the arguments in words. -/
def UsageError.complaint : UsageError → String
  | .unknownArgument => "unexpected argument"
  | .invalidValue => "a value is missing or empty"
  | .badNumber => "a number is not valid"
  | .unexpectedValue => "a flag takes no value"
  | .conflict => "arguments exclude each other"
  | .missingInput => "the required argument <AST_FILE> was not provided"
  | .helpRequested => ""
  | .versionRequested => ""

/-- What is left of a run whose arguments give no invocation. A request for help or for the
version is answered and counts as a success. -/
def UsageError.outcome : UsageError → Outcome
  | .helpRequested => { exitCode := 0, stdout := helpText, stderr := "" }
  | .versionRequested => { exitCode := 0, stdout := versionText, stderr := "" }
  | error => { exitCode := 2, stdout := "", stderr := "error: " ++ error.complaint ++ "\n" }

/-- What is left of a run that complains. An empty message is not told. -/
def Complaint.outcome (complaint : Complaint) : Outcome :=
  { exitCode := complaint.exitCode
    stdout := ""
    stderr := if complaint.message.isEmpty then "" else complaint.message ++ "\n" }

/-- What is left of a run that is cut off. The report names its cause; where in the program it came
about is left out. -/
def Outcome.cutOff : Outcome :=
  { exitCode := overflowCode, stdout := "", stderr := "capacity overflow\n" }

/-- What is left of a run that was carried out. -/
def Outcome.ofResult : Except (Stop RunError) String → Outcome
  | .ok printed => { exitCode := successCode, stdout := printed, stderr := "" }
  | .error (.failure error) => error.complaint.outcome
  | .error .overflow => .cutOff

/-- A run with the given arguments. -/
def run {m : Type → Type} [Monad m] (disk : Disk m) (arguments : List String) : m Outcome := do
  match Invocation.ofArguments arguments with
  | .error error => return error.outcome
  | .ok invocation => return Outcome.ofResult (← (invocation.execute disk).run)

end TreeToCpp.CommandLine
