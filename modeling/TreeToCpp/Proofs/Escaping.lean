import TreeToCpp.Proofs.Mangling
import TreeToCpp.Proofs.Walk

/-!
# Escaping the names of a program changes nothing

A name reaches the text in a dozen ways: as a declaration, through a scope, through the registry,
behind a dot. Each of them escapes it on its own, and some compare it with a name that has a meaning
of its own before they do. If one of them forgot to, or compared too late, a program would be
written differently from the one in which all names have been escaped beforehand.

The proof goes through the outline, where a site stands for the scopes and the way names are written
is a parameter. All that it takes of the latter is that it does not tell a name from its escaped
form.

## Main definitions

* `Node.escaped` — a tree with all its names escaped
* `Naming.IgnoresEscape` — names are written alike, escaped beforehand or not

## Main results

* `expression_escaped`, `Outline.statement_escaped` — expressions and statements
* `Registry.ofTopLevel_escaped` — the names of the top level
* `renderProgram_map_escaped` — programs
-/

namespace TreeToCpp

/-! ## Escaped trees -/

/-- The parameter or field with its name escaped. -/
def TypedName.escaped (entry : TypedName) : TypedName :=
  { entry with name := mangle entry.name }

mutual

/-- The tree with every name in it escaped. Annotations and the paths of imports stay. -/
def Node.escaped : Node → Node
  | .program loc body => .program loc (escapedList body)
  | .functionDecl loc name params returnType body =>
    .functionDecl loc (mangle name) (params.map TypedName.escaped) returnType body.escaped
  | .variableDecl loc name type isConstant value =>
    .variableDecl loc (mangle name) type isConstant (escaped? value)
  | .structDecl loc name fields methods =>
    .structDecl loc (mangle name) (fields.map TypedName.escaped) (escapedList methods)
  | .importDecl loc path => .importDecl loc path
  | .block loc body => .block loc (escapedList body)
  | .exprStmt loc expression => .exprStmt loc expression.escaped
  | .ifStmt loc test consequent otherwise =>
    .ifStmt loc test.escaped consequent.escaped (escaped? otherwise)
  | .whileStmt loc test body => .whileStmt loc test.escaped body.escaped
  | .forStmt loc start test update body =>
    .forStmt loc (escaped? start) (escaped? test) (escaped? update) body.escaped
  | .breakStmt loc => .breakStmt loc
  | .continueStmt loc => .continueStmt loc
  | .returnStmt loc argument => .returnStmt loc (escaped? argument)
  | .assign loc left right => .assign loc left.escaped right.escaped
  | .binary loc operator left right => .binary loc operator left.escaped right.escaped
  | .unary loc operator argument => .unary loc operator argument.escaped
  | .call loc callee arguments => .call loc callee.escaped (escapedList arguments)
  | .member loc object property => .member loc object.escaped (mangle property)
  | .index loc object position => .index loc object.escaped position.escaped
  | .slice loc object lower upper => .slice loc object.escaped (escaped? lower) (escaped? upper)
  | .literal loc value => .literal loc value
  | .identifier loc name => .identifier loc (mangle name)
  | .array loc elements => .array loc (escapedList elements)

/-- The trees of a list with every name escaped. -/
def escapedList : List Node → List Node
  | [] => []
  | node :: rest => node.escaped :: escapedList rest

/-- A tree that may be absent, with every name escaped. -/
def escaped? : Option Node → Option Node
  | none => none
  | some node => some node.escaped

end

theorem escapedList_eq_map (nodes : List Node) : escapedList nodes = nodes.map Node.escaped := by
  induction nodes with
  | nil => rfl
  | cons node rest ih => rw [escapedList, ih, List.map_cons]

@[simp] theorem Node.kind_escaped (node : Node) : node.escaped.kind = node.kind := by
  cases node <;> rfl

@[simp] theorem Node.location_escaped (node : Node) : node.escaped.location = node.location := by
  cases node <;> rfl

@[simp] theorem RenderError.misplaced_escaped (node : Node) (place : Misplacement) :
    misplaced node.escaped place = misplaced node place := by
  simp [misplaced]

/-! ## Expressions -/

@[simp] theorem isPlainValue_escaped (node : Node) :
    isPlainValue node.escaped = isPlainValue node := by
  cases node <;> rfl

@[simp] theorem isIndexable_escaped (node : Node) :
    isIndexable node.escaped = isIndexable node := by
  cases node with
  | literal _ value => cases value <;> rfl
  | _ => rfl

@[simp] theorem objectText_escaped (node : Node) (text : String) :
    objectText node.escaped text = objectText node text := by
  cases node <;> rfl

@[simp] theorem requirePlace_escaped (condition : Bool) (node : Node) (place : Misplacement) :
    requirePlace condition node.escaped place = requirePlace condition node place := by
  simp [requirePlace]

/-- Names are written alike, whether they were escaped beforehand or not. -/
structure Naming.IgnoresEscape (names : Naming) : Prop where
  reference : ∀ name, names.reference (mangle name) = names.reference name
  callee : ∀ name, names.callee (mangle name) = names.callee name

theorem calleeText_escaped {names : Naming} (h : names.IgnoresEscape) (callee : Node)
    (written : Except RenderError String) :
    calleeText names callee.escaped written = calleeText names callee written := by
  cases callee with
  | identifier _ name => simp [Node.escaped, calleeText, h.callee]
  | _ => rfl

mutual

theorem expression_escaped {names : Naming} (h : names.IgnoresEscape) (setting : Setting)
    (node : Node) : expression names setting node.escaped = expression names setting node := by
  cases node with
  | assign _ left right | binary _ _ left right =>
    have hleft := fun setting => expression_escaped h setting left
    have hright := fun setting => expression_escaped h setting right
    simp only [Node.escaped, expression, hleft, hright]
  | unary _ _ argument =>
    have hargument := expression_escaped h .delimited argument
    simp only [Node.escaped, expression, hargument]
  | call _ callee arguments =>
    have hcallee := expression_escaped h .delimited callee
    have harguments := expressions_escaped h arguments
    simp only [Node.escaped, expression, hcallee, harguments, calleeText_escaped h]
  | member _ object property =>
    have hobject := expression_escaped h .delimited object
    simp only [Node.escaped, expression, hobject, isPlainValue_escaped, requirePlace_escaped,
      objectText_escaped, mangle_mangle]
  | index _ object position =>
    have hobject := expression_escaped h .delimited object
    have hposition := expression_escaped h .delimited position
    simp only [Node.escaped, expression, hobject, hposition, isIndexable_escaped,
      requirePlace_escaped, objectText_escaped]
  | slice _ object lower upper =>
    have hobject := expression_escaped h .delimited object
    have hlower := expression?_escaped h lower
    have hupper := expression?_escaped h upper
    simp only [Node.escaped, expression, hobject, hlower, hupper, isPlainValue_escaped,
      requirePlace_escaped, objectText_escaped]
  | array _ elements =>
    have helements := expressions_escaped h elements
    simp only [Node.escaped, expression, helements]
  | identifier _ name => simp only [Node.escaped, expression, h.reference]
  | _ => rfl
termination_by structural node

theorem expressions_escaped {names : Naming} (h : names.IgnoresEscape) (nodes : List Node) :
    expressions names (escapedList nodes) = expressions names nodes := by
  cases nodes with
  | nil => rfl
  | cons node rest =>
    have hnode := expression_escaped h .delimited node
    have hrest := expressions_escaped h rest
    simp only [escapedList, expressions, hnode, hrest]
termination_by structural nodes

theorem expression?_escaped {names : Naming} (h : names.IgnoresEscape) (node? : Option Node) :
    expression? names (escaped? node?) = expression? names node? := by
  cases node? with
  | none => rfl
  | some node =>
    have hnode := expression_escaped h .delimited node
    simp only [escaped?, expression?, hnode]
termination_by structural node?

end

/-! ## Names -/

theorem Helper.ofName?_mangle (name : String) : ofName? (mangle name) = ofName? name := by
  have hname : ∀ helper : Helper, (helper.name == mangle name) = (helper.name == name) := by
    intro helper
    rw [Bool.eq_iff_iff, beq_iff_eq, beq_iff_eq, eq_comm, mangle_eq_helperName_iff, eq_comm]
  simp only [ofName?, hname]

theorem ignoresEscape_lexicalNaming (namespaceName : String) (isGlobal : String → Bool)
    (site : Site) : (lexicalNaming namespaceName isGlobal site).IgnoresEscape := by
  have hreference : ∀ name, lexicalReference namespaceName isGlobal site (mangle name) =
      lexicalReference namespaceName isGlobal site name := fun name => by
    simp only [lexicalReference, mangle_eq_receiverName_iff, mangle_mangle]
  refine ⟨hreference, fun name => ?_⟩
  simp only [lexicalNaming, Naming.ofReference, Helper.ofName?_mangle, hreference]

namespace Site

@[simp] theorem declare_mangle (site : Site) (name : String) :
    site.declare (mangle name) = site.declare name := by
  simp [declare]

@[simp] theorem after_escaped (site : Site) (node : Node) :
    site.after node.escaped = site.after node := by
  cases node with
  | variableDecl _ name => exact site.declare_mangle name
  | _ => rfl

@[simp] theorem afterStart_escaped (site : Site) (start : Option Node) :
    site.afterStart (escaped? start) = site.afterStart start := by
  cases start with
  | none => rfl
  | some node => exact site.after_escaped node

end Site

/-- Items of a list that are written alike after a change may be changed. -/
theorem Written.each_map {α : Type} {write : α → Written} {change : α → α}
    (h : ∀ item, write (change item) = write item) (items : List α) :
    Written.each write (items.map change) = Written.each write items := by
  induction items with
  | nil => rfl
  | cons item rest ih => simp only [List.map_cons, Written.each, h, ih]

namespace Outline

open Render (typedNameText paramsText)

variable (setup : Setup) {names : Site → Naming}

/-! ## Statements -/

theorem text_escaped (h : ∀ site, (names site).IgnoresEscape) (site : Site) (node : Node) :
    text names site node.escaped = text names site node :=
  expression_escaped (h site) .delimited node

theorem text?_escaped (h : ∀ site, (names site).IgnoresEscape) (site : Site)
    (node? : Option Node) : text? names site (escaped? node?) = text? names site node? := by
  cases node? with
  | none => rfl
  | some node => exact text_escaped h site node

theorem variableText_escaped (h : ∀ site, (names site).IgnoresEscape) (site : Site)
    (name : String) (type : Option String) (isConstant : Bool) (value : Option Node) :
    variableText setup names site (mangle name) type isConstant (escaped? value) =
      variableText setup names site name type isConstant value := by
  cases value with
  | none => simp only [escaped?, variableText, mangle_mangle]
  | some node =>
    simp only [escaped?, variableText, mangle_mangle, Site.declare_mangle, text_escaped h]

theorem loopStart_escaped (h : ∀ site, (names site).IgnoresEscape) (site : Site)
    (start : Option Node) :
    loopStart setup names site (escaped? start) = loopStart setup names site start := by
  cases start with
  | none => rfl
  | some node =>
    have hnode := text_escaped h site node
    cases node with
    | variableDecl _ name type isConstant value =>
      exact variableText_escaped setup h site name type isConstant value
    | exprStmt _ expression => exact text_escaped h site expression
    | assign | binary | unary | call | member | index | slice | literal | identifier | array =>
      exact hnode
    | _ => rfl

theorem expressionLine_escaped (h : ∀ site, (names site).IgnoresEscape) (site : Site)
    (node : Node) : expressionLine names site node.escaped = expressionLine names site node := by
  simp only [expressionLine, text_escaped h]

mutual

theorem statement_escaped (h : ∀ site, (names site).IgnoresEscape) (site : Site) (braced : Bool)
    (node : Node) :
    statement setup names site braced node.escaped = statement setup names site braced node := by
  cases node with
  | variableDecl _ name type isConstant value =>
    simp only [Node.escaped, statement, variableText_escaped setup h]
  | block _ body =>
    have hbody := fun site => statements_escaped h site body
    simp only [Node.escaped, statement, hbody]
  | exprStmt _ expression =>
    simp only [Node.escaped, statement, expressionLine_escaped h]
  | ifStmt _ test consequent otherwise =>
    have hconsequent := fun site => statement_escaped h site false consequent
    have hotherwise := alternate_escaped h site otherwise
    simp only [Node.escaped, statement, text_escaped h, hconsequent, hotherwise]
  | whileStmt _ test body =>
    have hbody := fun site => statement_escaped h site false body
    simp only [Node.escaped, statement, text_escaped h, hbody]
  | forStmt _ start test update body =>
    have hbody := fun site => statement_escaped h site false body
    simp only [Node.escaped, statement, loopStart_escaped setup h, Site.afterStart_escaped,
      text?_escaped h, hbody]
  | returnStmt _ argument =>
    cases argument with
    | none => rfl
    | some value => simp only [Node.escaped, escaped?, statement, text_escaped h]
  | assign | binary | unary | call | member | index | slice | literal | identifier | array =>
    exact expressionLine_escaped h site _
  | _ => rfl
termination_by structural node

theorem statements_escaped (h : ∀ site, (names site).IgnoresEscape) (site : Site)
    (body : List Node) :
    statements setup names site (escapedList body) = statements setup names site body := by
  cases body with
  | nil => rfl
  | cons node rest =>
    have hnode := statement_escaped h site true node
    have hrest := statements_escaped h (site.after node) rest
    simp only [escapedList, statements, hnode, Site.after_escaped, hrest]
termination_by structural body

theorem alternate_escaped (h : ∀ site, (names site).IgnoresEscape) (site : Site)
    (otherwise : Option Node) :
    alternate setup names site (escaped? otherwise) = alternate setup names site otherwise := by
  cases otherwise with
  | none => rfl
  | some node =>
    have hnode := statement_escaped h site.enter false node
    cases node with
    | ifStmt _ test consequent otherwise =>
      have hconsequent := fun site => statement_escaped h site false consequent
      have hotherwise := alternate_escaped h site otherwise
      simp only [escaped?, Node.escaped, alternate, text_escaped h, hconsequent, hotherwise]
    | _ => exact congrArg (fun lines => opening "\x7d else" ++ lines.deeper ++ closing) hnode
termination_by structural otherwise

end

/-! ## Declarations -/

@[simp] theorem isWritten_escaped (param : TypedName) :
    Render.isWritten param.escaped = Render.isWritten param := by
  have hname : (mangle param.name != receiverName) = (param.name != receiverName) := by
    rw [Bool.eq_iff_iff, bne_iff_ne, bne_iff_ne, ne_eq, mangle_eq_receiverName_iff]
  simp only [Render.isWritten, TypedName.escaped, hname]

@[simp] theorem typedNameText_escaped (entry : TypedName) :
    typedNameText setup entry.escaped = typedNameText setup entry := by
  simp [Render.typedNameText, TypedName.escaped]

theorem paramsText_escaped (params : List TypedName) :
    paramsText setup (params.map TypedName.escaped) = paramsText setup params := by
  have hwritten : Render.isWritten ∘ TypedName.escaped = Render.isWritten :=
    funext isWritten_escaped
  have htext : typedNameText setup ∘ TypedName.escaped = typedNameText setup :=
    funext (typedNameText_escaped setup)
  simp only [paramsText, List.filter_map, List.map_map, hwritten, htext]

theorem paramsSite_escaped (site : Site) (params : List TypedName) :
    paramsSite site (params.map TypedName.escaped) = paramsSite site params := by
  simp only [paramsSite, List.foldl_map, TypedName.escaped, Site.declare_mangle]

theorem functionDecl_escaped (h : ∀ site, (names site).IgnoresEscape) (site : Site)
    (name : String) (params : List TypedName) (returnType : Option String) (body : Node) :
    functionDecl setup names site (mangle name) (params.map TypedName.escaped) returnType
        body.escaped =
      functionDecl setup names site name params returnType body := by
  simp only [functionDecl, functionComment, functionBody, mangle_mangle, paramsText_escaped,
    paramsSite_escaped, statement_escaped setup h]

theorem method_escaped (h : ∀ site, (names site).IgnoresEscape) (site : Site) (node : Node) :
    method setup names site node.escaped = method setup names site node := by
  cases node with
  | functionDecl _ name params returnType body =>
    exact functionDecl_escaped setup h site name params returnType body
  | _ => rfl

theorem structDecl_escaped (h : ∀ site, (names site).IgnoresEscape) (site : Site)
    (name : String) (fields : List TypedName) (methods : List Node) :
    structDecl setup names site (mangle name) (fields.map TypedName.escaped)
        (methods.map Node.escaped) =
      structDecl setup names site name fields methods := by
  have hfields := @Written.each_map _ (fun entry => terminated (typedNameText setup entry))
    TypedName.escaped (fun entry => congrArg terminated (typedNameText_escaped setup entry)) fields
  have hmethods := Written.each_map (method_escaped setup h site) methods
  simp only [structDecl, mangle_mangle, hfields, hmethods]

/-! ## The file -/

theorem namespaceItem_escaped (h : ∀ site, (names site).IgnoresEscape) (node : Node) :
    namespaceItem setup names node.escaped = namespaceItem setup names node := by
  cases node with
  | functionDecl _ name params returnType body =>
    exact functionDecl_escaped setup h namespaceSite name params returnType body
  | structDecl _ name fields methods =>
    simp only [Node.escaped, namespaceItem, escapedList_eq_map, structDecl_escaped setup h]
  | variableDecl _ name type isConstant value =>
    simp only [Node.escaped, namespaceItem, globalVariable, variableText_escaped setup h]
  | _ => rfl

@[simp] theorem isDeclaration_escaped (node : Node) :
    isDeclaration node.escaped = isDeclaration node := by
  cases node <;> rfl

theorem isEntryCall_escaped (node : Node) : isEntryCall node.escaped = isEntryCall node := by
  cases node with
  | call _ callee _ =>
    cases callee with
    | identifier _ name =>
      rw [Bool.eq_iff_iff, Node.escaped, Node.escaped, isEntryCall, isEntryCall, beq_iff_eq,
        beq_iff_eq]
      exact mangle_eq_entryPointName_iff
    | _ => rfl
  | _ => rfl

@[simp] theorem isEntryStatement_escaped (node : Node) :
    isEntryStatement node.escaped = isEntryStatement node := by
  cases node with
  | exprStmt _ expression => exact isEntryCall_escaped expression
  | call loc callee arguments => exact isEntryCall_escaped (.call loc callee arguments)
  | _ => rfl

theorem entryItem_escaped (h : ∀ site, (names site).IgnoresEscape) (node : Node) :
    entryItem setup names node.escaped = entryItem setup names node := by
  simp only [entryItem, isDeclaration_escaped, isEntryStatement_escaped, statement_escaped setup h]

theorem importedModules_escaped (body : List Node) :
    importedModules (body.map Node.escaped) = importedModules body := by
  induction body with
  | nil => rfl
  | cons node rest ih =>
    cases node with
    | importDecl loc path => exact congrArg (fun paths => path :: paths.filter (· != path)) ih
    | _ => exact ih

theorem sourceFile_escaped (h : ∀ site, (names site).IgnoresEscape) (body : List Node) :
    sourceFile setup names (body.map Node.escaped) = sourceFile setup names body := by
  have hdeclarations := Written.each_map (namespaceItem_escaped setup h) body
  have hstatements := Written.each_map (entryItem_escaped setup h) body
  simp only [sourceFile, prologue, importedModules_escaped, namespacePart, hdeclarations,
    entryPoint, hstatements]

end Outline

namespace Registry

theorem register_mangle (registry : Registry) (name : String) (kind : SymbolKind) :
    registry.register (mangle name) kind = registry.register name kind := by
  simp [register]

theorem declaration?_escaped (node : Node) :
    declaration? node.escaped =
      (declaration? node).map fun (name, kind) => (mangle name, kind) := by
  cases node <;> rfl

/-- The names of the top level are collected in escaped form anyway. -/
theorem ofTopLevel_escaped (body : List Node) :
    ofTopLevel (body.map Node.escaped) = ofTopLevel body := by
  have hnames : (body.map Node.escaped).filterMap declaration? =
      (body.filterMap declaration?).map fun (name, kind) => (mangle name, kind) := by
    rw [List.filterMap_map, List.map_filterMap]
    exact congrArg (body.filterMap ·) (funext declaration?_escaped)
  simp only [ofTopLevel, hnames, registerAll, List.foldl_map, register_mangle]

end Registry

/-- Escaping the names of a program beforehand changes neither its text nor the reason why it has
none. -/
theorem renderProgram_map_escaped (options : Options) (body : List Node) :
    renderProgram options (body.map Node.escaped) = renderProgram options body := by
  rw [renderProgram_eq_text, renderProgram_eq_text, Registry.ofTopLevel_escaped,
    Outline.sourceFile_escaped _ (ignoresEscape_lexicalNaming _ _)]

end TreeToCpp
