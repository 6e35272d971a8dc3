import TreeToCpp.Diagnostic
import TreeToCpp.Tree.Node

/-!
# Why a program cannot be written

The tree may hold a node in a place where C++ has no use for it. Such a program is refused, and
the error names the kind of the node, the place and the location. A second error stands for a
mistake in the walk itself, a scope that is closed without having been opened.

## Main definitions

* `Misplacement` — a place that has no use for a node
* `RenderError` — why a program cannot be written
-/

namespace TreeToCpp

/-- A place that has no use for a node. -/
inductive Misplacement where
  /-- A declaration of the top level inside a function, a block or the entry point. -/
  | nestedInBlock
  /-- An import anywhere but at the top level. -/
  | outsideTopLevel
  /-- A program inside a program. -/
  | belowRoot
  /-- A loop starts with something that is neither a variable nor an expression. -/
  | loopStart
  /-- A structure has a method that is not a function. -/
  | method
  /-- A value is asked for. -/
  | expression
  /-- The object of a member access has no members. -/
  | noMembers
  /-- The object of an index access has no items. -/
  | notIndexable
  /-- The object of a slice has no items. -/
  | notSliceable
  /-- The callee of a call is not a function. -/
  | notCallable
  deriving DecidableEq, Repr

/-- The place in words, to follow the kind of the node. -/
def Misplacement.text : Misplacement → String
  | .nestedInBlock => "nested inside a block"
  | .outsideTopLevel => "outside the top level"
  | .belowRoot => "below the root"
  | .loopStart => "as a for-loop initializer"
  | .method => "as a struct method"
  | .expression => "used as an expression"
  | .noMembers => "has no members"
  | .notIndexable => "cannot be indexed"
  | .notSliceable => "cannot be sliced"
  | .notCallable => "cannot be called"

/-- Why a program cannot be written. -/
inductive RenderError where
  /-- A scope was closed that had not been opened. -/
  | scopeUnderflow
  /-- A node stands in a place that has no use for it. -/
  | unsupported (kind : Kind) (place : Misplacement) (location : Location)
  deriving DecidableEq, Repr

namespace RenderError

/-- The complaint that a node is misplaced. -/
def misplaced (node : Node) (place : Misplacement) : RenderError :=
  .unsupported node.kind place node.location

/-- The error in words. -/
def message : RenderError → String
  | .scopeUnderflow => "internal error: scope stack underflow"
  | .unsupported kind place location =>
    "unsupported construct: " ++ kind.name ++ " " ++ place.text ++ " at " ++ location.text

/-- What the user is told. -/
def diagnostic (error : RenderError) : Diagnostic :=
  match error with
  | .scopeUnderflow =>
    { code := "faxc::codegen::internal"
      message := error.message
      help := some ("this is a bug in the code generator, " ++
        "please report it together with the input AST") }
  | .unsupported .. =>
    { code := "faxc::codegen::unsupported", message := error.message, help := none }

end RenderError

end TreeToCpp
