import TreeToCpp.Render.SourceFile
import TreeToCpp.Tree.Reading

/-!
# From the text of a document to C++

Reading a program and writing it fail in different ways; here both are one kind of failure with one
way of telling the user.

There is a third way to end. The spaces of one level are made as one text, after the program has
been read and before its first line is written. Where they would be longer than any text can be, the
translation is cut off: it gives no text, and no failure that says why. Of all limits on memory
only this one is modelled, since nothing but the input decides whether it is met. How much memory
there is, and how deep a tree the stack can hold, is left to the machine.

## Main definitions

* `renderDocument` — the text of a document, with room for every margin
* `translate` — the same, cut off where a margin is too wide
-/

namespace TreeToCpp

/-- Why a document gives no C++ text. -/
inductive Failure where
  /-- The document is not a program. -/
  | reading (error : TreeError)
  /-- The program cannot be written. -/
  | rendering (error : RenderError)
  deriving DecidableEq, Repr

/-- What the user is told. -/
def Failure.diagnostic : Failure → Diagnostic
  | .reading error => error.diagnostic
  | .rendering error => error.diagnostic

/-- The C++ text of a document. -/
def renderDocument (options : Options) (text : String) : Except Failure String :=
  match Program.ofText text with
  | .error error => .error (.reading error)
  | .ok body => (renderProgram options body).mapError .rendering

/-- How a computation ends that gives no result. -/
inductive Stop (ε : Type) where
  /-- It fails and says why. -/
  | failure (error : ε)
  /-- It is cut off where a text would be longer than any can be. -/
  | overflow
  deriving DecidableEq, Repr

/-- The same end, with the failure told in another way. -/
def Stop.map {ε ε' : Type} (f : ε → ε') : Stop ε → Stop ε'
  | .failure error => .failure (f error)
  | .overflow => .overflow

/-- The C++ text of a document, if the spaces of one level fit into a text. -/
def translate (options : Options) (text : String) : Except (Stop Failure) String :=
  match Program.ofText text with
  | .error error => .error (.failure (.reading error))
  | .ok body =>
    if greatestTextSize < options.indentWidth then .error .overflow
    else (renderProgram options body).mapError fun error => .failure (.rendering error)

end TreeToCpp
