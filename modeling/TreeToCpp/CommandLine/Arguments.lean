import TreeToCpp.CommandLine.Form
import TreeToCpp.CommandLine.Invocation

/-!
# The arguments of the command line

The arguments are walked through from left to right. Every option may stand before or behind the
input file, and the first failure is the one that is reported.

An input file, and the value of an option that stands in an argument of its own, are looked at
late: they are kept open until the next option or input file is recognized, or until the arguments
end, and only then are they checked. An argument that cannot be recognized ends the walk at once,
so it is reported even when what is still open would have failed. A value that is attached to its
option is checked with it.

A value never begins like an option: an argument that does is taken as an option of its own, and
the option before it is left without a value. Behind a bare `--` every argument is an input file.

## Main definitions

* `Given` — what has been given and checked
* `Given.walk` — one argument after the other
* `Invocation.ofArguments` — the meaning of the arguments
-/

namespace TreeToCpp.CommandLine

/-- What has been given and checked. -/
structure Given where
  input : Option String := none
  output : Option String := none
  namespaceName : Option String := none
  indentWidth : Option Nat := none
  noBanner : Bool := false
  noDocComments : Bool := false
  check : Bool := false
  deriving DecidableEq, Repr

/-- What is still open. -/
inductive Pending where
  | nothing
  /-- An option, with its value if there is one already. -/
  | option (option : ValueOption) (value : Option String)
  | input (path : String)
  deriving DecidableEq, Repr

namespace Given

/-- A path, which must not be empty. -/
def checkPath (path : String) : Except UsageError String :=
  if path.isEmpty then .error .invalidValue else .ok path

/-- Refuses an option that has been given before. -/
def requireNew {α : Type} (before : Option α) : Except UsageError Unit :=
  if before.isSome then .error .conflict else .ok ()

/-- Takes an option with its value. -/
def accept (given : Given) (option : ValueOption) (value : String) : Except UsageError Given :=
  match option with
  | .output => do
    requireNew given.output
    return { given with output := some (← checkPath value) }
  | .namespaceName => do
    requireNew given.namespaceName
    return { given with namespaceName := some value }
  | .indentWidth => do
    requireNew given.indentWidth
    match parseNumber value with
    | some width => return { given with indentWidth := some width }
    | none => .error .badNumber

/-- Takes a flag. -/
def raise (given : Given) (flag : Flag) : Except UsageError Given :=
  match flag with
  | .noBanner => if given.noBanner then .error .conflict else .ok { given with noBanner := true }
  | .noDocComments =>
    if given.noDocComments then .error .conflict else .ok { given with noDocComments := true }
  | .check => if given.check then .error .conflict else .ok { given with check := true }
  | .help => .error .helpRequested
  | .version => .error .versionRequested

/-- Checks what is still open. -/
def settle (given : Given) : Pending → Except UsageError Given
  | .nothing => .ok given
  | .option _ none => .error .invalidValue
  | .option option (some value) => given.accept option value
  | .input path => do
    return { given with input := some (← checkPath path) }

/-- Whether an input file has been given, checked or not. -/
def hasInput (given : Given) : Pending → Bool
  | .input _ => true
  | _ => given.input.isSome

/-- Takes an option, with its attached value if it has one. -/
def take (given : Given) (pending : Pending) (option : AnyOption) (value : Option String) :
    Except UsageError (Given × Pending) :=
  match option, value with
  | .value option, some value => do
    let given ← given.settle pending
    return (← given.accept option value, .nothing)
  | .value option, none => do
    return (← given.settle pending, .option option none)
  | .flag _, some _ => .error .unexpectedValue
  | .flag flag, none => do
    let given ← given.settle pending
    return (← given.raise flag, .nothing)

/-- Takes an argument that is no option: the value of the option before it, or the input file. -/
def takeWord (given : Given) (pending : Pending) (behindSeparator : Bool) (word : String) :
    Except UsageError (Given × Pending) :=
  match behindSeparator, pending with
  | false, .option option none => .ok (given, .option option (some word))
  | _, _ =>
    if given.hasInput pending then .error .unknownArgument
    else do
      return (← given.settle pending, .input word)

/-- Walks through the arguments. -/
def walk (given : Given) (pending : Pending) (behindSeparator : Bool) :
    List String → Except UsageError Given
  | [] => given.settle pending
  | argument :: rest =>
    match if behindSeparator then .word else Form.of argument with
    | .separator => walk given pending true rest
    | .long name value =>
      match AnyOption.ofName? name with
      | none => .error .unknownArgument
      | some option => do
        let (given, pending) ← given.take pending option value
        walk given pending false rest
    | .short letter tail =>
      match AnyOption.ofLetter? letter with
      | none => .error .unknownArgument
      | some (.flag flag) => do
        let (given, pending) ← given.take pending (.flag flag) none
        walk given pending false rest
      | some (.value option) => do
        let (given, pending) ← given.take pending (.value option) (attachedValue tail)
        walk given pending false rest
    | .word => do
      let (given, pending) ← given.takeWord pending behindSeparator argument
      walk given pending behindSeparator rest

end Given

/-- The meaning of the arguments. An output file together with a mere check is refused before a
missing input file is. -/
def Invocation.ofArguments (arguments : List String) : Except UsageError Invocation := do
  let given ← Given.walk {} .nothing false arguments
  if given.check && given.output.isSome then .error .conflict
  else
    match given.input with
    | none => .error .missingInput
    | some input =>
      return {
        input := input
        output := given.output
        check := given.check
        options := {
          indentWidth := given.indentWidth.getD Layout.defaultIndentWidth
          namespaceName := given.namespaceName.getD defaultNamespace
          banner := !given.noBanner
          docComments := !given.noDocComments } }

end TreeToCpp.CommandLine
