import TreeToCpp.CommandLine.Run

/-!
# The program

The outer layer: operations on real files, standard output and standard error. Everything that is
decided is decided by `CommandLine.run`.
-/

namespace TreeToCpp

open CommandLine

/-- A failure of the operating system, from its code and description. -/
def osError (code : UInt32) (details : String) : OsError :=
  let code := if code < 0x80000000 then code.toNat else (0 - code).toNat
  match code with
  | 2 => .notFound
  | 20 => .notADirectory
  | 21 => .isADirectory
  | _ => { description := details.capitalize, code := code }

/-- A failure of the operating system, taken out of the error that reports it. -/
def osErrorOf : IO.Error → OsError
  | .alreadyExists _ code details => osError code details
  | .otherError code details => osError code details
  | .resourceBusy code details => osError code details
  | .resourceVanished code details => osError code details
  | .unsupportedOperation code details => osError code details
  | .hardwareFault code details => osError code details
  | .unsatisfiedConstraints code details => osError code details
  | .illegalOperation code details => osError code details
  | .protocolError code details => osError code details
  | .timeExpired code details => osError code details
  | .interrupted _ code details => osError code details
  | .noFileOrDirectory _ code details => osError code details
  | .invalidArgument _ code details => osError code details
  | .permissionDenied _ code details => osError code details
  | .resourceExhausted _ code details => osError code details
  | .inappropriateType _ code details => osError code details
  | .noSuchThing _ code details => osError code details
  | .unexpectedEof => { description := "unexpected end of file", code := 0 }
  | .userError details => { description := details, code := 0 }

/-- The result of an action, with its failure as a value. -/
def attempt {α : Type} (action : IO α) : IO (Except OsError α) := do
  match ← action.toBaseIO with
  | .ok value => return .ok value
  | .error error => return .error (osErrorOf error)

/-- The number of bytes that are read at a time. -/
def chunkSize : USize := 1048576

/-- Counts the bytes up to the end of a file. -/
partial def countBytes (handle : IO.FS.Handle) (count : Nat) : IO Nat := do
  let chunk ← handle.read chunkSize
  if chunk.isEmpty then return count else countBytes handle (count + chunk.size)

/-- The size of a file. What can be opened but not read, such as a directory, has none. -/
def fileSize (path : String) : IO (Except OsError Nat) := do
  match ← attempt (IO.FS.Handle.mk path .read) with
  | .error error => return .error error
  | .ok handle =>
    match ← attempt (countBytes handle 0) with
    | .ok count => return .ok count
    | .error _ => return .ok 0

/-- The text of a file. -/
def fileText (path : String) : IO (Except ReadFault String) := do
  match ← attempt (IO.FS.readBinFile path) with
  | .error error => return .error (.os error)
  | .ok data =>
    match String.fromUTF8? data with
    | some text => return .ok text
    | none => return .error .notText

/-- The real files. -/
def realDisk : Disk IO where
  size := fileSize
  read := fileText
  write path text := attempt (IO.FS.writeFile path text)

end TreeToCpp

/-- Runs the program. -/
def main (arguments : List String) : IO UInt32 := do
  let outcome ← TreeToCpp.CommandLine.run TreeToCpp.realDisk arguments
  IO.print outcome.stdout
  IO.eprint outcome.stderr
  return outcome.exitCode.toUInt32
