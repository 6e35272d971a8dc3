/-!
# Single arguments

What one argument looks like, before anything is known about those around it: an option by its long
name or by its letter, with or without an attached value, or a plain word.

## Main definitions

* `AnyOption` — the options and flags
* `Form.of` — what an argument looks like
* `parseNumber` — the number that an argument stands for
-/

namespace TreeToCpp.CommandLine

/-! ## Options -/

/-- An option that takes a value. -/
inductive ValueOption where
  | output
  | namespaceName
  | indentWidth
  deriving DecidableEq, Repr

/-- An option that takes none. -/
inductive Flag where
  | noBanner
  | noDocComments
  | check
  | help
  | version
  deriving DecidableEq, Repr

/-- An option of either kind. -/
inductive AnyOption where
  | value (option : ValueOption)
  | flag (flag : Flag)
  deriving DecidableEq, Repr

/-- The option of a long name. Names are not abbreviated. -/
def AnyOption.ofName? : String → Option AnyOption
  | "output" => some (.value .output)
  | "namespace" => some (.value .namespaceName)
  | "indent-width" => some (.value .indentWidth)
  | "no-banner" => some (.flag .noBanner)
  | "no-doc-comments" => some (.flag .noDocComments)
  | "check" => some (.flag .check)
  | "help" => some (.flag .help)
  | "version" => some (.flag .version)
  | _ => none

/-- The option of a single letter. -/
def AnyOption.ofLetter? : Char → Option AnyOption
  | 'o' => some (.value .output)
  | 'h' => some (.flag .help)
  | 'V' => some (.flag .version)
  | _ => none

/-! ## Forms -/

/-- What an argument looks like. -/
inductive Form where
  /-- A bare `--`. -/
  | separator
  /-- A long name, with what stands behind the first equals sign. -/
  | long (name : String) (value : Option String)
  /-- A letter behind a single dash, and what follows it. -/
  | short (letter : Char) (rest : List Char)
  /-- Anything else; a lone dash too. -/
  | word
  deriving DecidableEq, Repr

/-- A long name and the value behind the first equals sign. -/
def splitAtEquals (text : List Char) : String × Option String :=
  let name := String.ofList (text.takeWhile (· != '='))
  match text.dropWhile (· != '=') with
  | [] => (name, none)
  | _ :: value => (name, some (String.ofList value))

/-- What an argument looks like. -/
def Form.of (argument : String) : Form :=
  match argument.toList with
  | ['-', '-'] => .separator
  | '-' :: '-' :: text =>
    let (name, value) := splitAtEquals text
    .long name value
  | '-' :: letter :: rest => .short letter rest
  | _ => .word

/-- The value attached to a single letter; an equals sign in between does not count. -/
def attachedValue : List Char → Option String
  | [] => none
  | '=' :: value => some (String.ofList value)
  | value => some (String.ofList value)

/-- The greatest number that is accepted. -/
def greatestNumber : Nat := 0xFFFFFFFFFFFFFFFF

/-- The value of decimal digits. -/
def digitsValue (digits : List Char) : Nat :=
  digits.foldl (fun value c => value * 10 + (c.toNat - '0'.toNat)) 0

/-- A number from zero on, with an optional plus sign and any number of leading zeros. -/
def parseNumber (text : String) : Option Nat :=
  let digits :=
    match text.toList with
    | '+' :: rest => rest
    | all => all
  if digits.isEmpty || !digits.all Char.isDigit || greatestNumber < digitsValue digits then none
  else some (digitsValue digits)

end TreeToCpp.CommandLine
