import TreeToCpp.Render.Statement

/-!
# The generated file

The generated text has three parts. The prologue includes the headers. The namespace of the
program holds its functions, structures and variables in the order of the source. The entry point
runs every other node of the top level in order, calls the `main` of the program if it has one, and
reports what was thrown.

A program that has a function `main` may also call it at the top level. Such a call is left out,
because the entry point makes it anyway, after all other statements.

## Main definitions

* `Render.prologue`, `Render.namespacePart`, `Render.entryPoint` — the three parts
* `renderProgram` — the C++ text of a program
-/

namespace TreeToCpp

/-- The function that a program starts with. -/
def entryPointName : String := "main"

/-- What stands before the report of something that was thrown. -/
def fatalPrefix : String := "[FATAL]"

/-- The comment at the top. -/
def bannerLines : List String := [
  "/**",
  " * @file output.cpp",
  " * @brief Generated by Fax-lang Polyglot Compiler",
  " */"]

/-- The modules that the top level imports, each once, in the order of their first import. -/
def importedModules : List Node → List String
  | [] => []
  | .importDecl _ path :: rest => path :: (importedModules rest).filter (· != path)
  | _ :: rest => importedModules rest

/-- Whether a node of the top level is written outside the entry point. -/
def isDeclaration : Node → Bool
  | .functionDecl .. => true
  | .structDecl .. => true
  | .variableDecl .. => true
  | .importDecl .. => true
  | _ => false

/-- Whether a node is a call of `main`. -/
def isEntryCall : Node → Bool
  | .call _ (.identifier _ name) _ => name == entryPointName
  | _ => false

/-- Whether a node of the top level does nothing but call `main`. -/
def isEntryStatement : Node → Bool
  | .exprStmt _ node => isEntryCall node
  | node => isEntryCall node

/-- Whether `main` stands for a function of the program. -/
def Registry.hasEntryPoint (registry : Registry) : Bool :=
  registry.kindOf (mangle entryPointName) == some .function

namespace Render

/-- A directive that includes a header. -/
def includeLine (header : String) : Render Unit :=
  line ("#include " ++ header)

/-- A header between double quotes. -/
def quotedHeader (header : String) : String :=
  "\"" ++ header ++ "\""

/-- The banner and the headers. -/
def prologue (setup : Setup) (body : List Node) : Render Unit := do
  if setup.options.banner then
    bannerLines.forM line
    blankLine
  includeLine (quotedHeader SupportLibrary.header)
  SupportLibrary.standardHeaders.forM includeLine
  (importedModules body).forM fun path =>
    includeLine (quotedHeader (path ++ SupportLibrary.headerExtension))
  blankLine

/-- A node of the top level inside the namespace; only declarations are written there. -/
def namespaceItem (setup : Setup) : Node → Render Unit
  | .functionDecl _ name params returnType body => functionDecl setup name params returnType body
  | .structDecl _ name fields methods => structDecl setup name fields methods
  | .variableDecl _ name type isConstant value =>
    globalVariable setup name type isConstant value
  | _ => return

/-- The namespace of the program. -/
def namespacePart (setup : Setup) (body : List Node) : Render Unit := do
  opening ("namespace " ++ setup.options.namespaceName)
  inRegion .namespaceScope (indented (body.forM (namespaceItem setup)))
  blankLine
  line ("\x7d // namespace " ++ setup.options.namespaceName)
  blankLine

/-- A node of the top level inside the entry point. -/
def entryItem (setup : Setup) (node : Node) : Render Unit :=
  if isDeclaration node || (setup.registry.hasEntryPoint && isEntryStatement node) then return
  else statement setup true node

/-- The call of `main`, if the program has one. -/
def entryCall (setup : Setup) : Render Unit := do
  if setup.registry.hasEntryPoint then
    terminated (setup.options.namespaceName ++ "::" ++ mangle entryPointName ++ "()")

/-- The statements of the program, the call of `main` and the successful end. -/
def entryBody (setup : Setup) (body : List Node) : Render Unit := do
  body.forM (entryItem setup)
  entryCall setup
  line "return 0;"

/-- The report of something that was thrown. -/
def catchBody : Render Unit := do
  line ("std::cerr << \"" ++ fatalPrefix ++ ": \" << e.what() << std::endl;")
  line "return 1;"

/-- The entry point of the generated program. -/
def entryPoint (setup : Setup) (body : List Node) : Render Unit := do
  opening "int main(int argc, char* argv[])"
  indented do
    opening "try"
    inRegion .entryPoint (indented (entryBody setup body))
    opening "\x7d catch (const std::exception& e)"
    indented catchBody
    closing
  closing

/-- The whole text. -/
def sourceFile (setup : Setup) (body : List Node) : Render Unit := do
  prologue setup body
  namespacePart setup body
  entryPoint setup body

end Render

/-- The C++ text of a program. -/
def renderProgram (options : Options) (body : List Node) : Except RenderError String :=
  let setup : Setup := { options := options, registry := Registry.ofTopLevel body }
  let (result, draft) := (Render.sourceFile setup body).run (Draft.start options)
  result.map fun _ => draft.layout.text

end TreeToCpp
