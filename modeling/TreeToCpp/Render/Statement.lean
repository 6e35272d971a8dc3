import TreeToCpp.Render.Draft

/-!
# Statements in the generated program

Statements are written as whole lines. The bodies of loops, branches and functions always stand
between braces and have a scope of their own, whether the tree has a block there or a single
statement; a block in such a place does not bring a second pair of braces.

A variable is visible from its own declaration on, its value included. The variable of a loop
belongs to the loop and not to the block around it.

## Main definitions

* `Render.statement`, `Render.statements` — statements
* `Render.alternate` — the rest of a chain of branches
* `Render.functionDecl`, `Render.structDecl`, `Render.globalVariable` — declarations
-/

namespace TreeToCpp

namespace Render

/-- The C++ type of an annotation; without one it is inferred. -/
def typeText (setup : Setup) : Option String → String
  | some type => cppType setup.registry setup.options.namespaceName type
  | none => inferredType

/-- A declaration of a variable without the semicolon. The name is declared before its value is
written. -/
def variableText (setup : Setup) (name : String) (type : Option String)
    (isConstant : Bool) (value : Option Node) : Render String := do
  declare name
  let head := (if isConstant then "const " else "") ++ typeText setup type ++ " " ++
    mangle name
  match value with
  | none => return head
  | some node => return head ++ " = " ++ (← text setup node)

/-- A line with a semicolon at its end. -/
def terminated (content : String) : Render Unit :=
  line (content ++ ";")

/-- An expression as a statement. -/
def expressionLine (setup : Setup) (node : Node) : Render Unit := do
  terminated (← text setup node)

/-- A line that opens a brace. -/
def opening (head : String) : Render Unit :=
  line (head ++ " \x7b")

/-- A line that closes a brace. -/
def closing : Render Unit :=
  line "\x7d"

/-- Refuses a node in a place that has no use for it. -/
def refuse {α : Type} (kind : Kind) (place : Misplacement) (loc : Location) : Render α :=
  throw (.unsupported kind place loc)

/-- How a loop starts, without the semicolon. -/
def loopStart (setup : Setup) : Option Node → Render String
  | none => return ""
  | some (.variableDecl _ name type isConstant value) =>
    variableText setup name type isConstant value
  | some (.exprStmt _ node) => text setup node
  | some node =>
    if node.kind.isExpression then text setup node
    else refuse node.kind .loopStart node.location

mutual

/-- A statement. A block writes its braces when it is `braced`; otherwise the text around it has
them already. -/
def statement (setup : Setup) (braced : Bool) : Node → Render Unit
  | .variableDecl _ name type isConstant value => do
    terminated (← variableText setup name type isConstant value)
  | .block _ body =>
    if braced then do
      line "\x7b"
      nested (statements setup body)
      closing
    else statements setup body
  | .exprStmt _ node => expressionLine setup node
  | .ifStmt _ test consequent otherwise => do
    opening ("if (" ++ (← text setup test) ++ ")")
    nested (statement setup false consequent)
    alternate setup otherwise
  | .whileStmt _ test body => do
    opening ("while (" ++ (← text setup test) ++ ")")
    nested (statement setup false body)
    closing
  | .forStmt _ start test update body =>
    inScope do
      let start ← loopStart setup start
      let test ← text? setup test
      let update ← text? setup update
      opening ("for (" ++ start ++ "; " ++ test ++ "; " ++ update ++ ")")
      nested (statement setup false body)
      closing
  | .breakStmt _ => line "break;"
  | .continueStmt _ => line "continue;"
  | .returnStmt _ none => line "return;"
  | .returnStmt _ (some node) => do
    terminated ("return " ++ (← text setup node))
  | .functionDecl loc .. => refuse .functionDecl .nestedInBlock loc
  | .structDecl loc .. => refuse .structDecl .nestedInBlock loc
  | .importDecl loc .. => refuse .importDecl .outsideTopLevel loc
  | .program loc .. => refuse .program .belowRoot loc
  | node@(.assign ..) => expressionLine setup node
  | node@(.binary ..) => expressionLine setup node
  | node@(.unary ..) => expressionLine setup node
  | node@(.call ..) => expressionLine setup node
  | node@(.member ..) => expressionLine setup node
  | node@(.index ..) => expressionLine setup node
  | node@(.slice ..) => expressionLine setup node
  | node@(.literal ..) => expressionLine setup node
  | node@(.identifier ..) => expressionLine setup node
  | node@(.array ..) => expressionLine setup node

/-- Statements in order. -/
def statements (setup : Setup) : List Node → Render Unit
  | [] => return
  | node :: rest => do
    statement setup true node
    statements setup rest

/-- What follows the first branch: further branches, a branch for all other cases, and the brace
that closes the last of them. -/
def alternate (setup : Setup) : Option Node → Render Unit
  | none => closing
  | some (.ifStmt _ test consequent otherwise) => do
    opening ("\x7d else if (" ++ (← text setup test) ++ ")")
    nested (statement setup false consequent)
    alternate setup otherwise
  | some node => do
    opening "\x7d else"
    nested (statement setup false node)
    closing

end

/-- The type of a function that gives nothing back. -/
def defaultReturnType : String := "void"

/-- Whether a parameter is written. The receiver is implicit in C++; a parameter is the receiver
if its name or its annotation says so. -/
def isWritten (param : TypedName) : Bool :=
  param.type != receiverName && param.name != receiverName

/-- A name with its type in front. -/
def typedNameText (setup : Setup) (entry : TypedName) : String :=
  typeText setup (some entry.type) ++ " " ++ mangle entry.name

/-- The parameters of a function between its parentheses. -/
def paramsText (setup : Setup) (params : List TypedName) : String :=
  commaSeparated ((params.filter isWritten).map (typedNameText setup))

/-- A function or a method, with an empty line in front. -/
def functionDecl (setup : Setup) (name : String) (params : List TypedName)
    (returnType : Option String) (body : Node) : Render Unit := do
  blankLine
  if setup.options.docComments then onLayout (·.docComment (mangle name))
  inRegion .function do
    inScope do
      params.forM fun param => declare param.name
      opening (typeText setup (some (returnType.getD defaultReturnType)) ++ " " ++ mangle name ++
        parenthesized (paramsText setup params))
      nested (statement setup false body)
      closing

/-- A method of a structure. -/
def method (setup : Setup) : Node → Render Unit
  | .functionDecl _ name params returnType body => functionDecl setup name params returnType body
  | node => refuse node.kind .method node.location

/-- A structure, with an empty line in front. -/
def structDecl (setup : Setup) (name : String) (fields : List TypedName) (methods : List Node) :
    Render Unit := do
  blankLine
  opening ("struct " ++ mangle name)
  indented do
    fields.forM fun entry => terminated (typedNameText setup entry)
    methods.forM (method setup)
  line "\x7d;"

/-- A variable of the top level. -/
def globalVariable (setup : Setup) (name : String) (type : Option String)
    (isConstant : Bool) (value : Option Node) : Render Unit := do
  terminated (← variableText setup name type isConstant value)

end Render

end TreeToCpp
