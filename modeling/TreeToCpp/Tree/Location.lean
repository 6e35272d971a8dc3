/-!
# Where a node of the tree sits

A location has two parts. The path leads from the root of the document to the node, through names
of fields and indices of lists. The position, if the document records one, is the line and the
column of the source text that the node came from.

## Main definitions

* `Location` — path and position of a node
* `Path.field`, `Path.item` — one step further down
* `Location.text` — how a location is written in a message
-/

namespace TreeToCpp

/-- A place in the source text. -/
structure Position where
  line : Nat
  column : Nat
  deriving DecidableEq, Repr

/-- Where a node sits. -/
structure Location where
  /-- The way from the root, such as `body[2].body.body[0]`. It is empty at the root. -/
  path : String
  /-- The place in the source text, if it is known. -/
  position : Option Position
  deriving DecidableEq, Repr

namespace Path

/-- The path of a field. No dot stands in front of the first step. -/
def field (path key : String) : String :=
  if path.isEmpty then key else path ++ "." ++ key

/-- The path of an item of a list. -/
def item (path : String) (index : Nat) : String :=
  path ++ "[" ++ toString index ++ "]"

/-- How a path is written; the root has no steps and is written by name. -/
def text (path : String) : String :=
  if path.isEmpty then "<root>" else path

end Path

/-- How a position is written behind a path. -/
def Position.text (position : Position) : String :=
  " (line " ++ toString position.line ++ ", column " ++ toString position.column ++ ")"

/-- How a location is written. -/
def Location.text (location : Location) : String :=
  Path.text location.path ++ (location.position.map Position.text).getD ""

end TreeToCpp
