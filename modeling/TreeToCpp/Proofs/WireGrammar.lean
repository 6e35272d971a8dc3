import Mathlib.Data.List.Forall2
import TreeToCpp.Json.Value
import TreeToCpp.Tree.Node

/-!
# The grammar of a document

What a program tree looks like as a JSON value, said without the reader: `Describes path value node`
holds if the value, found at the path, describes the node. Every kind of node is one rule. A rule
names the tag, the keys and the shape that each key asks for, and nothing in it has an order, so it
does not say which of two faults a reader would meet first.

A key that holds `null` counts as absent everywhere but in a literal. Some values have two spellings
of their key; `FirstPresent` is the value under the first spelling that is present, and only that
value has to have the right shape.

## Main definitions

* `Wire.FirstPresent`, `Wire.TypedEntry`, `Wire.LiteralValue`, `Wire.PositionGiven` — parts of a
  node
* `Wire.Head` — what every node has
* `Wire.Describes` — the grammar
-/

namespace TreeToCpp

open Json (Value Members)

namespace Wire

/-! ## Parts of a node -/

/-- The value under the first of several spellings that is present, if there is one. -/
inductive FirstPresent (members : Members) : List String → Option Value → Prop
  | absent : FirstPresent members [] none
  | here {key : String} {rest : List String} {value : Value} :
      members.present key = some value → FirstPresent members (key :: rest) (some value)
  | later {key : String} {rest : List String} {found : Option Value} :
      members.present key = none → FirstPresent members rest found →
      FirstPresent members (key :: rest) found

/-- A parameter or a field of a structure. Its type stands under the first present spelling. -/
inductive TypedEntry (typeKeys : List String) : Value → TypedName → Prop
  | mk {members : Members} {name type : String} :
      members.present "name" = some (.string name) →
      FirstPresent members typeKeys (some (.string type)) →
      TypedEntry typeKeys (.object members) { name := name, type := type }

/-- A list of parameters or fields, each item giving one entry. -/
def TypedEntries (members : Members) (key : String) (typeKeys : List String)
    (entries : List TypedName) : Prop :=
  ∃ items, members.present key = some (.array items) ∧
    List.Forall₂ (TypedEntry typeKeys) items entries

/-- The value of a literal. Here `null` is a value like any other. -/
inductive LiteralValue : Value → Literal → Prop
  | string {text : String} : LiteralValue (.string text) (.string text)
  | boolean {value : Bool} : LiteralValue (.boolean value) (.boolean value)
  | number {value : Json.Number} : LiteralValue (.number value) (.number value)
  | null : LiteralValue .null .null

/-- The position that an object records. A coordinate is a whole number of 64 bits without sign. -/
inductive PositionGiven (members : Members) : Option Position → Prop
  | absent : members.present "position" = none → PositionGiven members none
  | given {place : Members} {line column : UInt64} :
      members.present "position" = some (.object place) →
      place.lookup "line" = some (.number (.natural line)) →
      place.lookup "column" = some (.number (.natural column)) →
      PositionGiven members (some { line := line.toNat, column := column.toNat })

/-- What every node has: its tag, its path and its position. -/
structure Head (path : String) (members : Members) (tag : String) (loc : Location) : Prop where
  tag : members.lookup "type" = some (.string tag)
  path : loc.path = path
  position : PositionGiven members loc.position

/-! ## The grammar -/

mutual

/-- A value, found at a path, describes a node. -/
inductive Describes : String → Value → Node → Prop
  | program {path members loc body} :
      Head path members "Program" loc → Children path members "body" body →
      Describes path (.object members) (.program loc body)
  | functionDecl {path members loc name params body} {returnType : Option String} :
      Head path members "FunctionDeclaration" loc →
      members.present "name" = some (.string name) →
      TypedEntries members "params" ["type", "param_type"] params →
      FirstPresent members ["returnType", "return_type"] (returnType.map .string) →
      Child path members "body" body →
      Describes path (.object members) (.functionDecl loc name params returnType body)
  | variableDecl {path members loc name value} {type : Option String} {flag : Option Bool} :
      Head path members "VariableDeclaration" loc →
      members.present "identifier" = some (.string name) →
      FirstPresent members ["dataType", "data_type"] (type.map .string) →
      FirstPresent members ["isConstant", "is_constant"] (flag.map .boolean) →
      OptionalChild path members "initializer" value →
      Describes path (.object members) (.variableDecl loc name type (flag.getD false) value)
  | structDecl {path members loc name fields methods} :
      Head path members "StructDeclaration" loc →
      members.present "name" = some (.string name) →
      TypedEntries members "fields" ["type", "field_type"] fields →
      OptionalChildren path members "methods" methods →
      Describes path (.object members) (.structDecl loc name fields methods)
  | importDecl {path members loc module} :
      Head path members "ImportStatement" loc →
      members.present "path" = some (.string module) →
      Describes path (.object members) (.importDecl loc module)
  | block {path members loc body} :
      Head path members "BlockStatement" loc → Children path members "body" body →
      Describes path (.object members) (.block loc body)
  | exprStmt {path members loc expression} :
      Head path members "ExpressionStatement" loc →
      Child path members "expression" expression →
      Describes path (.object members) (.exprStmt loc expression)
  | ifStmt {path members loc test consequent alternate} :
      Head path members "IfStatement" loc → Child path members "test" test →
      Child path members "consequent" consequent →
      OptionalChild path members "alternate" alternate →
      Describes path (.object members) (.ifStmt loc test consequent alternate)
  | whileStmt {path members loc test body} :
      Head path members "WhileStatement" loc → Child path members "test" test →
      Child path members "body" body →
      Describes path (.object members) (.whileStmt loc test body)
  | forStmt {path members loc start test update body} :
      Head path members "ForStatement" loc → OptionalChild path members "init" start →
      OptionalChild path members "test" test → OptionalChild path members "update" update →
      Child path members "body" body →
      Describes path (.object members) (.forStmt loc start test update body)
  | breakStmt {path members loc} :
      Head path members "BreakStatement" loc → Describes path (.object members) (.breakStmt loc)
  | continueStmt {path members loc} :
      Head path members "ContinueStatement" loc →
      Describes path (.object members) (.continueStmt loc)
  | returnStmt {path members loc argument} :
      Head path members "ReturnStatement" loc → OptionalChild path members "argument" argument →
      Describes path (.object members) (.returnStmt loc argument)
  | assign {path members loc left right} :
      Head path members "AssignmentExpression" loc → Child path members "left" left →
      Child path members "right" right →
      Describes path (.object members) (.assign loc left right)
  | binary {path members loc operator left right} :
      Head path members "BinaryExpression" loc →
      members.present "operator" = some (.string operator) →
      Child path members "left" left → Child path members "right" right →
      Describes path (.object members) (.binary loc operator left right)
  | unary {path members loc operator argument} :
      Head path members "UnaryExpression" loc →
      members.present "operator" = some (.string operator) →
      Child path members "argument" argument →
      Describes path (.object members) (.unary loc operator argument)
  | call {path members loc callee arguments} :
      Head path members "CallExpression" loc → Child path members "callee" callee →
      Children path members "arguments" arguments →
      Describes path (.object members) (.call loc callee arguments)
  | member {path members loc object property} :
      Head path members "MemberExpression" loc → Child path members "object" object →
      members.present "property" = some (.string property) →
      Describes path (.object members) (.member loc object property)
  | index {path members loc object position} :
      Head path members "IndexExpression" loc → Child path members "object" object →
      Child path members "index" position →
      Describes path (.object members) (.index loc object position)
  | slice {path members loc object lower upper} :
      Head path members "SliceExpression" loc → Child path members "object" object →
      OptionalChild path members "start" lower → OptionalChild path members "end" upper →
      Describes path (.object members) (.slice loc object lower upper)
  | literal {path members loc value literal} :
      Head path members "Literal" loc → members.lookup "value" = some value →
      LiteralValue value literal → Describes path (.object members) (.literal loc literal)
  | identifier {path members loc name} :
      Head path members "Identifier" loc → members.present "name" = some (.string name) →
      Describes path (.object members) (.identifier loc name)
  | array {path members loc elements} :
      Head path members "ArrayLiteral" loc → Children path members "elements" elements →
      Describes path (.object members) (.array loc elements)

/-- A child that has to be there. -/
inductive Child : String → Members → String → Node → Prop
  | mk {path members key value node} :
      members.present key = some value → Describes (Path.field path key) value node →
      Child path members key node

/-- A child that may be absent. -/
inductive OptionalChild : String → Members → String → Option Node → Prop
  | absent {path members key} : members.present key = none → OptionalChild path members key none
  | given {path members key node} :
      Child path members key node → OptionalChild path members key (some node)

/-- A list of children that has to be there. -/
inductive Children : String → Members → String → List Node → Prop
  | mk {path members key items nodes} :
      members.present key = some (.array items) → Items (Path.field path key) 0 items nodes →
      Children path members key nodes

/-- A list of children that is empty when it is absent. -/
inductive OptionalChildren : String → Members → String → List Node → Prop
  | absent {path members key} : members.present key = none → OptionalChildren path members key []
  | given {path members key nodes} :
      Children path members key nodes → OptionalChildren path members key nodes

/-- The items of a list, counted from an index, describe nodes one by one. -/
inductive Items : String → Nat → List Value → List Node → Prop
  | nil {path index} : Items path index [] []
  | cons {path index item node items nodes} :
      Describes (Path.item path index) item node → Items path (index + 1) items nodes →
      Items path index (item :: items) (node :: nodes)

end

end Wire

end TreeToCpp
