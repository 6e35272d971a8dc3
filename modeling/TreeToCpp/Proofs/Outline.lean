import TreeToCpp.Render.SourceFile

/-!
# The text of a program, place by place

The walk that writes a program keeps its scopes in a state that every step may change. Here the same
text is described without a state. What decides how a name is written at a place is the `Site` of
the place: the region of the text and the declarations that are visible there. A site is handed
down from a node to its parts and never comes back up, so the text of a part depends on where the
part stands and on nothing that was written before.

How names are written at a site is a parameter, `names`. Every identifier of the program is written
by it and by nothing else.

## Main definitions

* `Site` — what is visible at a place
* `Line`, `Written` — lines of text, and how far the writing came
* `Outline.statement`, `Outline.functionDecl`, `Outline.structDecl` — the lines of a node
* `Outline.sourceFile` — the lines of a program
-/

namespace TreeToCpp

/-! ## Places -/

/-- What decides how a name is written at a place of the program. -/
structure Site where
  /-- The part of the text that the place belongs to. -/
  region : Region
  /-- The mangled names of the visible parameters and variables. Outside every function and every
  body there is nothing that a declaration could be local to. -/
  locals : Option (List String)
  deriving DecidableEq, Repr

namespace Site

/-- Whether a declaration with a mangled name is visible. -/
def sees (site : Site) (mangled : String) : Bool :=
  (site.locals.getD []).contains mangled

/-- The beginning of a body at a place. -/
def enter (site : Site) : Site :=
  { site with locals := some (site.locals.getD []) }

/-- The place behind the name of a declaration. -/
def declare (site : Site) (name : String) : Site :=
  { site with locals := site.locals.map (mangle name :: ·) }

/-- The place behind a statement of a list. -/
def after (site : Site) : Node → Site
  | .variableDecl _ name .. => site.declare name
  | _ => site

/-- The place behind the start of a loop. -/
def afterStart (site : Site) : Option Node → Site
  | some start => site.after start
  | none => site

end Site

/-! ## Lines -/

/-- A line of the text. -/
inductive Line where
  | blank
  /-- A line that is indented, seen from the place that is written. -/
  | code (depth : Nat) (content : String)
  deriving DecidableEq, Repr

namespace Line

/-- The line, one level deeper. -/
def deeper : Line → Line
  | .blank => .blank
  | .code depth content => .code (depth + 1) content

/-- The text of a line with a given width of one level, at a given level. -/
def text (width level : Nat) : Line → String
  | .blank => "\n"
  | .code depth content =>
    String.ofList (List.replicate ((level + depth) * width) ' ') ++ content ++ "\n"

end Line

/-- Lines, and whether they are all there are or a failure cut them short. -/
structure Written where
  lines : List Line
  outcome : Except RenderError Unit

namespace Written

/-- No lines. -/
def nothing : Written := { lines := [], outcome := .ok () }

/-- A failure before the first line. -/
def failure (error : RenderError) : Written := { lines := [], outcome := .error error }

/-- An empty line. -/
def blank : Written := { lines := [.blank], outcome := .ok () }

/-- A single line. -/
def code (content : String) : Written := { lines := [.code 0 content], outcome := .ok () }

/-- Lines behind other lines. Behind a failure nothing is written. -/
def andThen (first rest : Written) : Written :=
  match first.outcome with
  | .ok _ => { lines := first.lines ++ rest.lines, outcome := rest.outcome }
  | .error error => { lines := first.lines, outcome := .error error }

instance : Append Written := ⟨andThen⟩

/-- Lines that hold the text of an expression, unless the expression cannot be written. -/
def withText (text : Except RenderError String) (write : String → Written) : Written :=
  match text with
  | .ok content => write content
  | .error error => failure error

/-- The lines, one level deeper. -/
def deeper (written : Written) : Written :=
  { written with lines := written.lines.map Line.deeper }

/-- The lines of the items of a list, in order. -/
def each {α : Type} (write : α → Written) : List α → Written
  | [] => nothing
  | item :: rest => write item ++ each write rest

/-- The whole text, if no failure cut it short. -/
def text (written : Written) (width : Nat) : Except RenderError String :=
  written.outcome.map fun _ => String.join (written.lines.map (Line.text width 0))

@[simp] theorem nothing_append (written : Written) : nothing ++ written = written := rfl

@[simp] theorem failure_append (error : RenderError) (written : Written) :
    failure error ++ written = failure error := rfl

theorem append_of_ok {first : Written} (h : first.outcome = .ok ()) (rest : Written) :
    first ++ rest = { lines := first.lines ++ rest.lines, outcome := rest.outcome } := by
  show andThen first rest = _
  rw [andThen, h]

theorem append_of_error {first : Written} {error : RenderError}
    (h : first.outcome = .error error) (rest : Written) : first ++ rest = first := by
  show andThen first rest = _
  rw [andThen, h]
  cases first
  cases h
  rfl

theorem append_assoc (first second third : Written) :
    first ++ second ++ third = first ++ (second ++ third) := by
  cases h : first.outcome with
  | error error => rw [append_of_error h, append_of_error h, append_of_error h]
  | ok =>
    cases h' : second.outcome with
    | error error =>
      rw [append_of_error h', append_of_error]
      rw [append_of_ok h, h']
    | ok =>
      rw [append_of_ok h, append_of_ok h, append_of_ok h', append_of_ok (by exact h')]
      simp

end Written

namespace Outline

open Render (typeText paramsText typedNameText quotedHeader)

variable (setup : Setup) (names : Site → Naming)

/-! ## Expressions and statements -/

/-- The text of an expression at a place. -/
def text (site : Site) (node : Node) : Except RenderError String :=
  expression (names site) .delimited node

/-- The text of an expression that may be absent; then it is empty. -/
def text? (site : Site) : Option Node → Except RenderError String
  | some node => text names site node
  | none => .ok ""

/-- A declaration of a variable. The name is visible in its own value. -/
def variableText (site : Site) (name : String) (type : Option String) (isConstant : Bool)
    (value : Option Node) : Except RenderError String :=
  let head := (if isConstant then "const " else "") ++ typeText setup type ++ " " ++ mangle name
  match value with
  | none => .ok head
  | some node => (text names (site.declare name) node).map fun value => head ++ " = " ++ value

/-- How a loop starts. -/
def loopStart (site : Site) : Option Node → Except RenderError String
  | none => .ok ""
  | some (.variableDecl _ name type isConstant value) =>
    variableText setup names site name type isConstant value
  | some (.exprStmt _ node) => text names site node
  | some node =>
    if node.kind.isExpression then text names site node else .error (.misplaced node .loopStart)

/-- A line with a semicolon at its end. -/
def terminated (content : String) : Written :=
  .code (content ++ ";")

/-- A line that opens a brace. -/
def opening (head : String) : Written :=
  .code (head ++ " \x7b")

/-- A line that closes a brace. -/
def closing : Written :=
  .code "\x7d"

/-- An expression as a statement. -/
def expressionLine (site : Site) (node : Node) : Written :=
  .withText (text names site node) terminated

mutual

/-- The lines of a statement at a place. A block has braces of its own when it is `braced`. -/
def statement (site : Site) (braced : Bool) : Node → Written
  | .variableDecl _ name type isConstant value =>
    .withText (variableText setup names site name type isConstant value) terminated
  | .block _ body =>
    if braced then .code "\x7b" ++ (statements site.enter body).deeper ++ closing
    else statements site body
  | .exprStmt _ node => expressionLine names site node
  | .ifStmt _ test consequent otherwise =>
    .withText (text names site test) fun test =>
      opening ("if (" ++ test ++ ")") ++ (statement site.enter false consequent).deeper ++
        alternate site otherwise
  | .whileStmt _ test body =>
    .withText (text names site test) fun test =>
      opening ("while (" ++ test ++ ")") ++ (statement site.enter false body).deeper ++ closing
  | .forStmt _ start test update body =>
    let inside := site.enter.afterStart start
    .withText (loopStart setup names site.enter start) fun start =>
      .withText (text? names inside test) fun test =>
        .withText (text? names inside update) fun update =>
          opening ("for (" ++ start ++ "; " ++ test ++ "; " ++ update ++ ")") ++
            (statement inside.enter false body).deeper ++ closing
  | .breakStmt _ => .code "break;"
  | .continueStmt _ => .code "continue;"
  | .returnStmt _ none => .code "return;"
  | .returnStmt _ (some node) =>
    .withText (text names site node) fun value => terminated ("return " ++ value)
  | node@(.functionDecl ..) => .failure (.misplaced node .nestedInBlock)
  | node@(.structDecl ..) => .failure (.misplaced node .nestedInBlock)
  | node@(.importDecl ..) => .failure (.misplaced node .outsideTopLevel)
  | node@(.program ..) => .failure (.misplaced node .belowRoot)
  | node => expressionLine names site node

/-- The lines of the statements of a list. A declaration is visible from itself on. -/
def statements (site : Site) : List Node → Written
  | [] => .nothing
  | node :: rest => statement site true node ++ statements (site.after node) rest

/-- The lines behind the first branch of a chain. -/
def alternate (site : Site) : Option Node → Written
  | none => closing
  | some (.ifStmt _ test consequent otherwise) =>
    .withText (text names site test) fun test =>
      opening ("\x7d else if (" ++ test ++ ")") ++ (statement site.enter false consequent).deeper ++
        alternate site otherwise
  | some node => opening "\x7d else" ++ (statement site.enter false node).deeper ++ closing

end

/-! ## Declarations -/

/-- The place behind the parameters of a function. -/
def paramsSite (site : Site) (params : List TypedName) : Site :=
  params.foldl (fun site param => site.declare param.name) { site.enter with region := .function }

/-- The comment in front of a function, if it is asked for. -/
def functionComment (name : String) : Written :=
  if setup.options.docComments then .code ("/** @brief " ++ mangle name ++ " */") else .nothing

/-- The signature and the body of a function. -/
def functionBody (site : Site) (name : String) (params : List TypedName)
    (returnType : Option String) (body : Node) : Written :=
  opening (typeText setup (some (returnType.getD Render.defaultReturnType)) ++ " " ++ mangle name ++
      parenthesized (paramsText setup params)) ++
    (statement setup names (paramsSite site params).enter false body).deeper ++ closing

/-- The lines of a function or a method. -/
def functionDecl (site : Site) (name : String) (params : List TypedName)
    (returnType : Option String) (body : Node) : Written :=
  .blank ++ functionComment setup name ++ functionBody setup names site name params returnType body

/-- The lines of a method. -/
def method (site : Site) : Node → Written
  | .functionDecl _ name params returnType body =>
    functionDecl setup names site name params returnType body
  | node => .failure (.misplaced node .method)

/-- The lines of a structure. -/
def structDecl (site : Site) (name : String) (fields : List TypedName) (methods : List Node) :
    Written :=
  .blank ++ opening ("struct " ++ mangle name) ++
    (Written.each (fun entry => terminated (typedNameText setup entry)) fields ++
      Written.each (method setup names site) methods).deeper ++
    .code "\x7d;"

/-- The line of a variable of the top level. -/
def globalVariable (site : Site) (name : String) (type : Option String) (isConstant : Bool)
    (value : Option Node) : Written :=
  .withText (variableText setup names site name type isConstant value) terminated

/-! ## The file -/

/-- The place of the declarations of the top level. -/
def namespaceSite : Site := { region := .namespaceScope, locals := none }

/-- The place of the statements of the top level. -/
def entrySite : Site := { region := .entryPoint, locals := none }

/-- A directive that includes a header. -/
def includeLine (header : String) : Written :=
  .code ("#include " ++ header)

/-- The banner and the headers. -/
def prologue (body : List Node) : Written :=
  (if setup.options.banner then Written.each .code bannerLines ++ .blank else .nothing) ++
    includeLine (quotedHeader SupportLibrary.header) ++
    Written.each includeLine SupportLibrary.standardHeaders ++
    Written.each (fun path => includeLine (quotedHeader (path ++ SupportLibrary.headerExtension)))
      (importedModules body) ++
    .blank

/-- The lines of a node of the top level inside the namespace. -/
def namespaceItem : Node → Written
  | .functionDecl _ name params returnType body =>
    functionDecl setup names namespaceSite name params returnType body
  | .structDecl _ name fields methods =>
    structDecl setup names namespaceSite name fields methods
  | .variableDecl _ name type isConstant value =>
    globalVariable setup names namespaceSite name type isConstant value
  | _ => .nothing

/-- The namespace of the program. -/
def namespacePart (body : List Node) : Written :=
  opening ("namespace " ++ setup.options.namespaceName) ++
    (Written.each (namespaceItem setup names) body).deeper ++ .blank ++
    .code ("\x7d // namespace " ++ setup.options.namespaceName) ++ .blank

/-- The lines of a node of the top level inside the entry point. -/
def entryItem (node : Node) : Written :=
  if isDeclaration node || (setup.registry.hasEntryPoint && isEntryStatement node) then .nothing
  else statement setup names entrySite true node

/-- The call of `main`, if the program has one. -/
def entryCall : Written :=
  if setup.registry.hasEntryPoint then
    terminated (setup.options.namespaceName ++ "::" ++ mangle entryPointName ++ "()")
  else .nothing

/-- The report of something that was thrown. -/
def catchBody : Written :=
  .code ("std::cerr << \"" ++ fatalPrefix ++ ": \" << e.what() << std::endl;") ++
    .code "return 1;"

/-- The entry point of the generated program. -/
def entryPoint (body : List Node) : Written :=
  opening "int main(int argc, char* argv[])" ++
    (opening "try" ++
      (Written.each (entryItem setup names) body ++ entryCall setup ++ .code "return 0;").deeper ++
      opening "\x7d catch (const std::exception& e)" ++ catchBody.deeper ++ closing).deeper ++
    closing

/-- The lines of a program. -/
def sourceFile (body : List Node) : Written :=
  prologue setup body ++ namespacePart setup names body ++ entryPoint setup names body

end Outline

end TreeToCpp
