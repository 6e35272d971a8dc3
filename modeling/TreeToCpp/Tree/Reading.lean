import TreeToCpp.Tree.Record

/-!
# Reading a program tree

A document describes a node as an object whose tag names the kind. The tag is looked at first,
then the position, then the fields in a fixed order, and the first fault ends the reading. A tag
of no kind is a fault of its own, reported after the position, because the report shows it.

The recursion follows the value: a child is read from a value that is smaller than the object it
was found in.

## Main definitions

* `Node.read` — the node that a value describes
* `Node.readFields` — the node of a given kind
* `Program.read` — the nodes of a whole program, read from the value of a document
* `Program.ofText` — the same, read from the text of a document
-/

namespace TreeToCpp

open Json (Value Members)

namespace Node

mutual

/-- The node that a value describes, found at a path. -/
def read (path : String) : Value → Except TreeError Node
  | .object members => do
    let r : Record := { path := path, members := members }
    let tag ← r.tag
    let position ← r.position
    let loc : Location := { path := path, position := position }
    match Kind.ofName? tag with
    | some kind => readFields path members loc kind
    | none => .error (.unrecognized tag loc)
  | found => .error (.malformed path (.notANode found.shape))
termination_by value => (sizeOf value, 0)

/-- The node of a kind whose fields an object holds. -/
def readFields (path : String) (members : Members) (loc : Location) (kind : Kind) :
    Except TreeError Node :=
  let r : Record := { path := path, members := members }
  match kind with
  | .program => do
    return .program loc (← readChildren path members "body")
  | .functionDecl => do
    let name ← r.string "name"
    let params ← r.typedNames "params" "type" ["param_type"]
    let returnType ← r.firstString? ["returnType", "return_type"]
    return .functionDecl loc name params returnType (← readChild path members "body")
  | .variableDecl => do
    let name ← r.string "identifier"
    let type ← r.firstString? ["dataType", "data_type"]
    let isConstant ← r.firstFlag? ["isConstant", "is_constant"]
    let value ← readChild? path members "initializer"
    return .variableDecl loc name type (isConstant.getD false) value
  | .structDecl => do
    let name ← r.string "name"
    let fields ← r.typedNames "fields" "type" ["field_type"]
    return .structDecl loc name fields (← readChildren? path members "methods")
  | .importDecl => do
    return .importDecl loc (← r.string "path")
  | .block => do
    return .block loc (← readChildren path members "body")
  | .exprStmt => do
    return .exprStmt loc (← readChild path members "expression")
  | .ifStmt => do
    let test ← readChild path members "test"
    let consequent ← readChild path members "consequent"
    return .ifStmt loc test consequent (← readChild? path members "alternate")
  | .whileStmt => do
    let test ← readChild path members "test"
    return .whileStmt loc test (← readChild path members "body")
  | .forStmt => do
    let start ← readChild? path members "init"
    let test ← readChild? path members "test"
    let update ← readChild? path members "update"
    return .forStmt loc start test update (← readChild path members "body")
  | .breakStmt => .ok (.breakStmt loc)
  | .continueStmt => .ok (.continueStmt loc)
  | .returnStmt => do
    return .returnStmt loc (← readChild? path members "argument")
  | .assign => do
    let left ← readChild path members "left"
    return .assign loc left (← readChild path members "right")
  | .binary => do
    let operator ← r.string "operator"
    let left ← readChild path members "left"
    return .binary loc operator left (← readChild path members "right")
  | .unary => do
    let operator ← r.string "operator"
    return .unary loc operator (← readChild path members "argument")
  | .call => do
    let callee ← readChild path members "callee"
    return .call loc callee (← readChildren path members "arguments")
  | .member => do
    let object ← readChild path members "object"
    return .member loc object (← r.string "property")
  | .index => do
    let object ← readChild path members "object"
    return .index loc object (← readChild path members "index")
  | .slice => do
    let object ← readChild path members "object"
    let lower ← readChild? path members "start"
    return .slice loc object lower (← readChild? path members "end")
  | .literal => do
    return .literal loc (← r.literal)
  | .identifier => do
    return .identifier loc (← r.string "name")
  | .array => do
    return .array loc (← readChildren path members "elements")
termination_by (sizeOf members, 2)

/-- A child that has to be there. -/
def readChild (path : String) (members : Members) (key : String) : Except TreeError Node :=
  match h : members.present key with
  | some value =>
    have := Members.sizeOf_lt_of_present h
    read (Path.field path key) value
  | none => .error (.malformed path (.missingField key))
termination_by (sizeOf members, 0)

/-- A child that may be absent. -/
def readChild? (path : String) (members : Members) (key : String) :
    Except TreeError (Option Node) :=
  match h : members.present key with
  | some value =>
    have := Members.sizeOf_lt_of_present h
    some <$> read (Path.field path key) value
  | none => .ok none
termination_by (sizeOf members, 0)

/-- A list of children that has to be there. -/
def readChildren (path : String) (members : Members) (key : String) :
    Except TreeError (List Node) :=
  match h : members.present key with
  | some (.array items) =>
    have := Members.sizeOf_items_lt_of_present h
    readItems (Path.field path key) 0 items
  | some found => .error (.malformed path (.wrongShape key (.shape .array) found.shape))
  | none => .error (.malformed path (.missingField key))
termination_by (sizeOf members, 0)

/-- A list of children that is empty when it is absent. -/
def readChildren? (path : String) (members : Members) (key : String) :
    Except TreeError (List Node) :=
  match members.present key with
  | some _ => readChildren path members key
  | none => .ok []
termination_by (sizeOf members, 1)

/-- The children of a list, counted from `index`. -/
def readItems (path : String) (index : Nat) : List Value → Except TreeError (List Node)
  | [] => .ok []
  | item :: rest => do
    let node ← read (Path.item path index) item
    let nodes ← readItems path (index + 1) rest
    return node :: nodes
termination_by items => (sizeOf items, 0)

end

end Node

namespace Program

/-- The nodes of a whole program, read from the value of a document. -/
def read (value : Value) : Except TreeError (List Node) := do
  match ← Node.read "" value with
  | .program _ body => return body
  | other => .error (.malformed "" (.wrongRoot other.kind))

/-- The nodes of a whole program, read from the text of a document. A fault of the JSON text is
reported before any fault of the tree. -/
def ofText (text : String) : Except TreeError (List Node) :=
  match Value.ofText Json.documentLevels text with
  | .error error => .error (.json error)
  | .ok value => read value

end Program

end TreeToCpp
