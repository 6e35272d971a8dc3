/-!
# What a run needs from the disk

A run of the program reads one file and may write one. `Disk` names the three operations that this
takes, in whatever monad they live in, so that the same run can be carried out on a real disk and on
a model of one.

## Main definitions

* `OsError`, `ReadFault` — why an operation fails
* `Disk` — size, content and replacement of a file
-/

namespace TreeToCpp.CommandLine

/-- A failure that the operating system reports. -/
structure OsError where
  description : String
  code : Nat
  deriving DecidableEq, Repr

namespace OsError

/-- A part of the path does not exist. -/
def notFound : OsError := { description := "No such file or directory", code := 2 }

/-- A part of the path that has to be a directory is a file. -/
def notADirectory : OsError := { description := "Not a directory", code := 20 }

/-- The path leads to a directory. -/
def isADirectory : OsError := { description := "Is a directory", code := 21 }

/-- The failure in words. -/
def text (error : OsError) : String :=
  error.description ++ " (os error " ++ toString error.code ++ ")"

end OsError

/-- Why a file gives no text. -/
inductive ReadFault where
  /-- The system does not read it. -/
  | os (error : OsError)
  /-- Its bytes are not the UTF-8 form of a text. -/
  | notText
  deriving DecidableEq, Repr

/-- The fault in words. -/
def ReadFault.text : ReadFault → String
  | .os error => error.text
  | .notText => "stream did not contain valid UTF-8"

/-- The operations on files that a run is made of. -/
structure Disk (m : Type → Type) where
  /-- The size of a file in bytes. -/
  size : String → m (Except OsError Nat)
  /-- The text of a file. -/
  read : String → m (Except ReadFault String)
  /-- Makes a text the content of a file, which is created if it is not there. -/
  write : String → String → m (Except OsError Unit)

end TreeToCpp.CommandLine
