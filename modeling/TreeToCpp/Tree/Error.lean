import TreeToCpp.Diagnostic
import TreeToCpp.Json.Reader
import TreeToCpp.Tree.Node

/-!
# Why a document is not a program

A document fails in one of three ways: it is not JSON, some value in it does not have the form
that its place asks for, or a node has a tag that stands for no kind of node. Each failure names
the place in the tree that is at fault.

## Main definitions

* `Fault` — what is wrong with the value at a place
* `TreeError` — why a document is refused
* `TreeError.diagnostic` — what the user is told
-/

namespace TreeToCpp

namespace Tree

/-- What a field has to hold. -/
inductive Expected where
  /-- A value of one shape. -/
  | shape (wanted : Json.Shape)
  /-- Anything but an array or an object. -/
  | scalar
  deriving DecidableEq, Repr

/-- What a field has to hold, in words. -/
def Expected.text : Expected → String
  | .shape wanted => wanted.text
  | .scalar => "a string, boolean, number or null"

/-- What is wrong with the value at a place. -/
inductive Fault where
  /-- A node has to be an object. -/
  | notANode (found : Json.Shape)
  /-- A parameter or a field of a structure has to be an object. -/
  | notARecord (found : Json.Shape)
  /-- A node has no tag, or the tag is not a string. -/
  | missingTag
  /-- A field that has to be there is absent. -/
  | missingField (key : String)
  /-- A field holds a value of the wrong shape. -/
  | wrongShape (key : String) (expected : Expected) (found : Json.Shape)
  /-- The line or the column of a position is not a whole number from zero on. -/
  | badCoordinate (key : String)
  /-- The root is a node, but not a program. -/
  | wrongRoot (found : Kind)
  deriving DecidableEq, Repr

/-- The fault in words. -/
def Fault.text : Fault → String
  | .notANode found => "expected a node object, found " ++ found.text
  | .notARecord found => "expected an object, found " ++ found.text
  | .missingTag => "node is missing its string `type` tag"
  | .missingField key => "missing required field `" ++ key ++ "`"
  | .wrongShape key expected found =>
    "field `" ++ key ++ "` must be " ++ expected.text ++ ", found " ++ found.text
  | .badCoordinate key => "`" ++ key ++ "` must be a non-negative integer"
  | .wrongRoot found => "root node must be a `Program`, found `" ++ found.name ++ "`"

end Tree

/-- Why a document is refused. -/
inductive TreeError where
  /-- The document is not JSON. -/
  | json (error : Json.ReadError)
  /-- A value does not have the form that its place asks for. -/
  | malformed (path : String) (fault : Tree.Fault)
  /-- A node has a tag that stands for no kind of node. -/
  | unrecognized (tag : String) (location : Location)
  deriving DecidableEq, Repr

namespace TreeError

/-- The error in words. -/
def message : TreeError → String
  | .json error => "invalid AST document: " ++ error.text
  | .malformed path fault => "malformed AST at " ++ Path.text path ++ ": " ++ fault.text
  | .unrecognized tag location =>
    "unrecognized node kind `" ++ tag ++ "` at " ++ location.text

/-- What the user is told. -/
def diagnostic (error : TreeError) : Diagnostic :=
  match error with
  | .json _ =>
    { code := "faxc::syntax::json"
      message := error.message
      help := some "the input must be the JSON AST produced by the Fax-lang parser" }
  | .malformed .. =>
    { code := "faxc::syntax::malformed", message := error.message, help := none }
  | .unrecognized .. =>
    { code := "faxc::syntax::unrecognized_node"
      message := error.message
      help := some ("the parser and the code generator disagree on the AST format; " ++
        "regenerate the AST with a matching parser") }

end TreeError

end TreeToCpp
