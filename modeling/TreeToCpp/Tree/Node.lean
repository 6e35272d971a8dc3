import TreeToCpp.Json.Number
import TreeToCpp.Tree.Location

/-!
# The program tree

One type holds every node of a program: declarations, statements and expressions. The document
that a tree is read from may put any kind of node anywhere, and which places are allowed is decided
when the node is written, so the type does not separate the three.

## Main definitions

* `Node` — a node with its location and its children
* `Kind` — the 23 kinds of nodes and their tags
* `Node.kind`, `Node.location` — what a node is and where it sits
* `Kind.isExpression` — whether a kind of node stands for a value
-/

namespace TreeToCpp

/-- A value that is written out in the program. -/
inductive Literal where
  | string (value : String)
  | boolean (value : Bool)
  | number (value : Json.Number)
  | null
  deriving DecidableEq, Repr

/-- A parameter of a function or a field of a structure: a name and its type annotation. -/
structure TypedName where
  name : String
  type : String
  deriving DecidableEq, Repr

/-- A node of the program tree. -/
inductive Node where
  /-- A whole program. -/
  | program (location : Location) (body : List Node)
  /-- A function, or a method of a structure. -/
  | functionDecl (location : Location) (name : String) (params : List TypedName)
      (returnType : Option String) (body : Node)
  /-- A variable. Without an annotation its type is inferred. -/
  | variableDecl (location : Location) (name : String) (type : Option String)
      (isConstant : Bool) (value : Option Node)
  /-- A structure with fields and methods. -/
  | structDecl (location : Location) (name : String) (fields : List TypedName)
      (methods : List Node)
  /-- The use of another module. -/
  | importDecl (location : Location) (module : String)
  /-- Statements with a scope of their own. -/
  | block (location : Location) (body : List Node)
  /-- An expression whose value is dropped. -/
  | exprStmt (location : Location) (expression : Node)
  | ifStmt (location : Location) (test consequent : Node) (alternate : Option Node)
  | whileStmt (location : Location) (test body : Node)
  | forStmt (location : Location) (start test update : Option Node) (body : Node)
  | breakStmt (location : Location)
  | continueStmt (location : Location)
  | returnStmt (location : Location) (argument : Option Node)
  | assign (location : Location) (left right : Node)
  | binary (location : Location) (operator : String) (left right : Node)
  | unary (location : Location) (operator : String) (argument : Node)
  | call (location : Location) (callee : Node) (arguments : List Node)
  | member (location : Location) (object : Node) (property : String)
  | index (location : Location) (object position : Node)
  /-- A part of an array. A bound that is missing is the end on its side. -/
  | slice (location : Location) (object : Node) (lower upper : Option Node)
  | literal (location : Location) (value : Literal)
  | identifier (location : Location) (name : String)
  | array (location : Location) (elements : List Node)

/-- A kind of node. -/
inductive Kind where
  | program
  | functionDecl
  | variableDecl
  | structDecl
  | importDecl
  | block
  | exprStmt
  | ifStmt
  | whileStmt
  | forStmt
  | breakStmt
  | continueStmt
  | returnStmt
  | assign
  | binary
  | unary
  | call
  | member
  | index
  | slice
  | literal
  | identifier
  | array
  deriving DecidableEq, Repr

namespace Kind

/-- Every kind of node. -/
def all : List Kind := [
  .program, .functionDecl, .variableDecl, .structDecl, .importDecl, .block, .exprStmt, .ifStmt,
  .whileStmt, .forStmt, .breakStmt, .continueStmt, .returnStmt, .assign, .binary, .unary, .call,
  .member, .index, .slice, .literal, .identifier, .array]

/-- The tag of a kind in the document and in messages. -/
def name : Kind → String
  | .program => "Program"
  | .functionDecl => "FunctionDeclaration"
  | .variableDecl => "VariableDeclaration"
  | .structDecl => "StructDeclaration"
  | .importDecl => "ImportStatement"
  | .block => "BlockStatement"
  | .exprStmt => "ExpressionStatement"
  | .ifStmt => "IfStatement"
  | .whileStmt => "WhileStatement"
  | .forStmt => "ForStatement"
  | .breakStmt => "BreakStatement"
  | .continueStmt => "ContinueStatement"
  | .returnStmt => "ReturnStatement"
  | .assign => "AssignmentExpression"
  | .binary => "BinaryExpression"
  | .unary => "UnaryExpression"
  | .call => "CallExpression"
  | .member => "MemberExpression"
  | .index => "IndexExpression"
  | .slice => "SliceExpression"
  | .literal => "Literal"
  | .identifier => "Identifier"
  | .array => "ArrayLiteral"

/-- The kind of a tag. -/
def ofName? (name : String) : Option Kind :=
  all.find? (·.name == name)

theorem mem_all (kind : Kind) : kind ∈ all := by
  cases kind <;> decide

@[simp] theorem ofName?_name (kind : Kind) : ofName? kind.name = some kind := by
  cases kind <;> decide

theorem name_of_ofName? {kind : Kind} {tag : String} (h : ofName? tag = some kind) :
    kind.name = tag := by
  simpa using List.find?_some h

/-- Whether nodes of the kind stand for a value. -/
def isExpression : Kind → Bool
  | .assign | .binary | .unary | .call | .member | .index | .slice | .literal | .identifier
  | .array => true
  | _ => false

end Kind

namespace Node

/-- The kind of a node. -/
def kind : Node → Kind
  | .program .. => .program
  | .functionDecl .. => .functionDecl
  | .variableDecl .. => .variableDecl
  | .structDecl .. => .structDecl
  | .importDecl .. => .importDecl
  | .block .. => .block
  | .exprStmt .. => .exprStmt
  | .ifStmt .. => .ifStmt
  | .whileStmt .. => .whileStmt
  | .forStmt .. => .forStmt
  | .breakStmt .. => .breakStmt
  | .continueStmt .. => .continueStmt
  | .returnStmt .. => .returnStmt
  | .assign .. => .assign
  | .binary .. => .binary
  | .unary .. => .unary
  | .call .. => .call
  | .member .. => .member
  | .index .. => .index
  | .slice .. => .slice
  | .literal .. => .literal
  | .identifier .. => .identifier
  | .array .. => .array

/-- Where a node sits. -/
def location : Node → Location
  | .program loc .. => loc
  | .functionDecl loc .. => loc
  | .variableDecl loc .. => loc
  | .structDecl loc .. => loc
  | .importDecl loc .. => loc
  | .block loc .. => loc
  | .exprStmt loc .. => loc
  | .ifStmt loc .. => loc
  | .whileStmt loc .. => loc
  | .forStmt loc .. => loc
  | .breakStmt loc => loc
  | .continueStmt loc => loc
  | .returnStmt loc .. => loc
  | .assign loc .. => loc
  | .binary loc .. => loc
  | .unary loc .. => loc
  | .call loc .. => loc
  | .member loc .. => loc
  | .index loc .. => loc
  | .slice loc .. => loc
  | .literal loc .. => loc
  | .identifier loc .. => loc
  | .array loc .. => loc

end Node

end TreeToCpp
