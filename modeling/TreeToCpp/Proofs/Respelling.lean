import TreeToCpp.Proofs.Assembly

/-!
# Programs that are spelled out

A body may be a block or a single statement, and an expression may stand as a statement without
being marked as one. Such shorter spellings mean what the longer ones mean: a tree in which every
body is a block, and every expression that stands as a statement is marked, is written in the same
way. That takes an argument for each place where the walk looks at the kind of a node. A block has a
scope of its own, in the middle of a list it has braces, a branch behind another is either a block
or the next link of a chain, and a call of `main` is recognised with the mark and without it.

The inserted nodes need locations. They are arbitrary, because nothing is ever said about such a
node: complaints are about the nodes inside.

## Main definitions

* `Places` — locations for inserted nodes
* `Node.spelledOut` — a tree with all its bodies and statements spelled out

## Main results

* `Outline.statement_asBody`, `Outline.alternate_asAlternate` — a single statement and a block
* `expression_spelledOut`, `Outline.statement_spelledOut` — expressions and statements
* `renderProgram_spelledOut` — programs
-/

namespace TreeToCpp

/-! ## Inserted nodes -/

/-- Locations for inserted nodes. The places where nodes are inserted into a tree are told apart by
the steps that lead there. -/
abbrev Places := List Nat → Location

/-- The places behind a step. -/
def Places.below (places : Places) (step : Nat) : Places :=
  fun steps => places (step :: steps)

/-- An expression is marked as a statement. -/
def asStatement (places : Places) (node : Node) : Node :=
  if node.kind.isExpression then .exprStmt (places []) node else node

/-- A single statement is put into a block. -/
def asBody (places : Places) : Node → Node
  | .block loc body => .block loc body
  | node => .block (places []) [asStatement (places.below 0) node]

/-- A single statement behind a branch is put into a block, unless it is the next link of the
chain. -/
def asAlternate (places : Places) : Node → Node
  | .ifStmt loc test consequent otherwise => .ifStmt loc test consequent otherwise
  | node => asBody places node

theorem asAlternate_of_kind_ne {places : Places} {node : Node} (h : node.kind ≠ .ifStmt) :
    asAlternate places node = asBody places node := by
  cases node <;> first | rfl | exact absurd rfl h

@[simp] theorem kind_asBody (places : Places) (node : Node) :
    (asBody places node).kind = .block := by
  cases node <;> rfl

mutual

/-- The tree in which every body is a block and every expression that stands as a statement is
marked, at every depth. -/
def Node.spelledOut (places : Places) : Node → Node
  | .program loc body => .program loc (spelledOutMembers places body)
  | .functionDecl loc name params returnType body =>
    .functionDecl loc name params returnType (asBody places (body.spelledOut (places.below 1)))
  | .variableDecl loc name type isConstant value =>
    .variableDecl loc name type isConstant (spelledOut? places value)
  | .structDecl loc name fields methods =>
    .structDecl loc name fields (spelledOutList places methods)
  | .importDecl loc path => .importDecl loc path
  | .block loc body => .block loc (spelledOutMembers places body)
  | .exprStmt loc expression => .exprStmt loc (expression.spelledOut places)
  | .ifStmt loc test consequent otherwise =>
    .ifStmt loc (test.spelledOut (places.below 0))
      (asBody (places.below 1) (consequent.spelledOut ((places.below 1).below 1)))
      ((spelledOut? ((places.below 2).below 1) otherwise).map (asAlternate (places.below 2)))
  | .whileStmt loc test body =>
    .whileStmt loc (test.spelledOut (places.below 0))
      (asBody (places.below 1) (body.spelledOut ((places.below 1).below 1)))
  | .forStmt loc start test update body =>
    .forStmt loc
      ((spelledOut? ((places.below 0).below 1) start).map (asStatement (places.below 0)))
      (spelledOut? (places.below 1) test) (spelledOut? (places.below 2) update)
      (asBody (places.below 3) (body.spelledOut ((places.below 3).below 1)))
  | .breakStmt loc => .breakStmt loc
  | .continueStmt loc => .continueStmt loc
  | .returnStmt loc argument => .returnStmt loc (spelledOut? places argument)
  | .assign loc left right =>
    .assign loc (left.spelledOut (places.below 0)) (right.spelledOut (places.below 1))
  | .binary loc operator left right =>
    .binary loc operator (left.spelledOut (places.below 0)) (right.spelledOut (places.below 1))
  | .unary loc operator argument => .unary loc operator (argument.spelledOut places)
  | .call loc callee arguments =>
    .call loc (callee.spelledOut (places.below 0)) (spelledOutList (places.below 1) arguments)
  | .member loc object property => .member loc (object.spelledOut places) property
  | .index loc object position =>
    .index loc (object.spelledOut (places.below 0)) (position.spelledOut (places.below 1))
  | .slice loc object lower upper =>
    .slice loc (object.spelledOut (places.below 0)) (spelledOut? (places.below 1) lower)
      (spelledOut? (places.below 2) upper)
  | .literal loc value => .literal loc value
  | .identifier loc name => .identifier loc name
  | .array loc elements => .array loc (spelledOutList places elements)

/-- The statements of a list, spelled out. -/
def spelledOutMembers (places : Places) : List Node → List Node
  | [] => []
  | node :: rest =>
    asStatement (places.below 0) (node.spelledOut ((places.below 0).below 1)) ::
      spelledOutMembers (places.below 1) rest

/-- The trees of a list that are no statements, spelled out. -/
def spelledOutList (places : Places) : List Node → List Node
  | [] => []
  | node :: rest => node.spelledOut (places.below 0) :: spelledOutList (places.below 1) rest

/-- A tree that may be absent, spelled out. -/
def spelledOut? (places : Places) : Option Node → Option Node
  | none => none
  | some node => some (node.spelledOut places)

end

@[simp] theorem Node.kind_spelledOut (places : Places) (node : Node) :
    (node.spelledOut places).kind = node.kind := by
  cases node <;> rfl

@[simp] theorem Node.location_spelledOut (places : Places) (node : Node) :
    (node.spelledOut places).location = node.location := by
  cases node <;> rfl

@[simp] theorem RenderError.misplaced_spelledOut (places : Places) (node : Node)
    (place : Misplacement) : misplaced (node.spelledOut places) place = misplaced node place := by
  simp [misplaced]

/-- Whatever does not tell a spelled-out statement from a short one has the same values on the
statements of both lists. -/
theorem map_spelledOutMembers {α : Type} {value : Node → α}
    (h : ∀ places places' node, value (asStatement places (node.spelledOut places')) = value node)
    (places : Places) (nodes : List Node) :
    (spelledOutMembers places nodes).map value = nodes.map value := by
  induction nodes generalizing places with
  | nil => rfl
  | cons node rest ih => rw [spelledOutMembers, List.map_cons, List.map_cons, h, ih]

theorem filterMap_spelledOut {α : Type} {contribution : Node → Option α}
    (h : ∀ places places' node,
      contribution (asStatement places (node.spelledOut places')) = contribution node)
    (places : Places) (body : List Node) :
    (spelledOutMembers places body).filterMap contribution = body.filterMap contribution := by
  have hmap := congrArg (List.filterMap id) (map_spelledOutMembers h places body)
  rwa [List.filterMap_map, List.filterMap_map] at hmap

theorem map_spelledOutList {α : Type} {value : Node → α}
    (h : ∀ places node, value (node.spelledOut places) = value node)
    (places : Places) (nodes : List Node) :
    (spelledOutList places nodes).map value = nodes.map value := by
  induction nodes generalizing places with
  | nil => rfl
  | cons node rest ih => rw [spelledOutList, List.map_cons, List.map_cons, h, ih]

/-! ## Expressions -/

@[simp] theorem isPlainValue_spelledOut (places : Places) (node : Node) :
    isPlainValue (node.spelledOut places) = isPlainValue node := by
  cases node <;> rfl

@[simp] theorem isIndexable_spelledOut (places : Places) (node : Node) :
    isIndexable (node.spelledOut places) = isIndexable node := by
  cases node with
  | literal _ value => cases value <;> rfl
  | _ => rfl

@[simp] theorem objectText_spelledOut (places : Places) (node : Node) (text : String) :
    objectText (node.spelledOut places) text = objectText node text := by
  cases node <;> rfl

@[simp] theorem requirePlace_spelledOut (places : Places) (condition : Bool) (node : Node)
    (place : Misplacement) :
    requirePlace condition (node.spelledOut places) place = requirePlace condition node place := by
  simp [requirePlace]

theorem calleeText_spelledOut (names : Naming) (places : Places) (callee : Node)
    (written : Except RenderError String) :
    calleeText names (callee.spelledOut places) written = calleeText names callee written := by
  cases callee <;> rfl

mutual

theorem expression_spelledOut (names : Naming) (setting : Setting) (places : Places) (node : Node) :
    expression names setting (node.spelledOut places) = expression names setting node := by
  cases node with
  | assign _ left right | binary _ _ left right =>
    have hleft := fun setting => expression_spelledOut names setting (places.below 0) left
    have hright := fun setting => expression_spelledOut names setting (places.below 1) right
    simp only [Node.spelledOut, expression, hleft, hright]
  | unary _ _ argument =>
    have hargument := expression_spelledOut names .delimited places argument
    simp only [Node.spelledOut, expression, hargument]
  | call _ callee arguments =>
    have hcallee := expression_spelledOut names .delimited (places.below 0) callee
    have harguments := expressions_spelledOut names (places.below 1) arguments
    simp only [Node.spelledOut, expression, hcallee, harguments, calleeText_spelledOut]
  | member _ object property =>
    have hobject := expression_spelledOut names .delimited places object
    simp only [Node.spelledOut, expression, hobject, isPlainValue_spelledOut,
      requirePlace_spelledOut, objectText_spelledOut]
  | index _ object position =>
    have hobject := expression_spelledOut names .delimited (places.below 0) object
    have hposition := expression_spelledOut names .delimited (places.below 1) position
    simp only [Node.spelledOut, expression, hobject, hposition, isIndexable_spelledOut,
      requirePlace_spelledOut, objectText_spelledOut]
  | slice _ object lower upper =>
    have hobject := expression_spelledOut names .delimited (places.below 0) object
    have hlower := expression?_spelledOut names (places.below 1) lower
    have hupper := expression?_spelledOut names (places.below 2) upper
    simp only [Node.spelledOut, expression, hobject, hlower, hupper, isPlainValue_spelledOut,
      requirePlace_spelledOut, objectText_spelledOut]
  | array _ elements =>
    have helements := expressions_spelledOut names places elements
    simp only [Node.spelledOut, expression, helements]
  | _ => rfl
termination_by structural node

theorem expressions_spelledOut (names : Naming) (places : Places) (nodes : List Node) :
    expressions names (spelledOutList places nodes) = expressions names nodes := by
  cases nodes with
  | nil => rfl
  | cons node rest =>
    have hnode := expression_spelledOut names .delimited (places.below 0) node
    have hrest := expressions_spelledOut names (places.below 1) rest
    simp only [spelledOutList, expressions, hnode, hrest]
termination_by structural nodes

theorem expression?_spelledOut (names : Naming) (places : Places) (node? : Option Node) :
    expression? names (spelledOut? places node?) = expression? names node? := by
  cases node? with
  | none => rfl
  | some node =>
    have hnode := expression_spelledOut names .delimited places node
    simp only [spelledOut?, expression?, hnode]
termination_by structural node?

end

/-! ## Statements -/

namespace Written

theorem append_nothing (written : Written) : written ++ nothing = written := by
  cases h : written.outcome with
  | error error => exact append_of_error h _
  | ok =>
    rw [append_of_ok h]
    simp [nothing, ← h]

theorem each_eq_of_map {α : Type} {write : α → Written} {items items' : List α}
    (h : items.map write = items'.map write) : each write items = each write items' := by
  have hwrite : ∀ items, each write items = each id (items.map write) := fun items => by
    induction items with
    | nil => rfl
    | cons item rest ih => rw [each, ih, List.map_cons, each, id]
  rw [hwrite, hwrite, h]

end Written

namespace Site

theorem after_asStatement (site : Site) (places : Places) (node : Node) :
    site.after (asStatement places node) = site.after node := by
  cases node <;> rfl

@[simp] theorem after_spelledOut (site : Site) (places : Places) (node : Node) :
    site.after (node.spelledOut places) = site.after node := by
  cases node <;> rfl

theorem afterStart_spelledOut (site : Site) (places places' : Places) (start : Option Node) :
    site.afterStart ((spelledOut? places start).map (asStatement places')) =
      site.afterStart start := by
  cases start with
  | none => rfl
  | some node =>
    exact (site.after_asStatement places' _).trans (site.after_spelledOut places node)

end Site

namespace Outline

variable (setup : Setup) (names : Site → Naming)

/-- The mark of an expression that stands as a statement is not written. -/
theorem statement_asStatement (site : Site) (braced : Bool) (places : Places) (node : Node) :
    statement setup names site braced (asStatement places node) =
      statement setup names site braced node := by
  cases node <;> rfl

/-- A body is written in the same way as a block of a single statement. -/
theorem statement_asBody (site : Site) (places : Places) (node : Node) :
    statement setup names site false (asBody places node) =
      statement setup names site false node := by
  have hsingle : ∀ node, statement setup names site false
      (.block (places []) [asStatement (places.below 0) node]) =
        statement setup names site true node := fun node => by
    rw [statement, if_neg (by decide), statements, statements, Written.append_nothing,
      statement_asStatement]
  cases node with
  | block => rfl
  | returnStmt _ argument => cases argument <;> exact hsingle (.returnStmt _ _)
  | _ => exact hsingle _

theorem alternate_of_kind_ne {node : Node} (h : node.kind ≠ .ifStmt) (site : Site) :
    alternate setup names site (some node) =
      opening "\x7d else" ++ (statement setup names site.enter false node).deeper ++ closing := by
  cases node <;> first | rfl | exact absurd rfl h

/-- Behind a branch, a single statement is written in the same way as a block. -/
theorem alternate_asAlternate (site : Site) (places : Places) (node : Node) :
    alternate setup names site (some (asAlternate places node)) =
      alternate setup names site (some node) := by
  by_cases h : node.kind = .ifStmt
  · cases node with
    | ifStmt => rfl
    | _ => cases h
  · rw [asAlternate_of_kind_ne h, alternate_of_kind_ne setup names (by simp),
      alternate_of_kind_ne setup names h, statement_asBody]

theorem text_spelledOut (site : Site) (places : Places) (node : Node) :
    text names site (node.spelledOut places) = text names site node :=
  expression_spelledOut (names site) .delimited places node

theorem text?_spelledOut (site : Site) (places : Places) (node? : Option Node) :
    text? names site (spelledOut? places node?) = text? names site node? := by
  cases node? with
  | none => rfl
  | some node => exact text_spelledOut names site places node

theorem variableText_spelledOut (site : Site) (name : String) (type : Option String)
    (isConstant : Bool) (places : Places) (value : Option Node) :
    variableText setup names site name type isConstant (spelledOut? places value) =
      variableText setup names site name type isConstant value := by
  cases value with
  | none => rfl
  | some node => simp only [spelledOut?, variableText, text_spelledOut]

theorem loopStart_asStatement (site : Site) (places : Places) (node : Node) :
    loopStart setup names site (some (asStatement places node)) =
      loopStart setup names site (some node) := by
  cases node <;> rfl

theorem loopStart_spelledOut (site : Site) (places places' : Places) (start : Option Node) :
    loopStart setup names site ((spelledOut? places start).map (asStatement places')) =
      loopStart setup names site start := by
  cases start with
  | none => rfl
  | some node =>
    refine (loopStart_asStatement setup names site places' _).trans ?_
    have hnode := text_spelledOut names site places node
    cases node with
    | variableDecl => exact variableText_spelledOut ..
    | exprStmt _ expression => exact text_spelledOut names site places expression
    | assign | binary | unary | call | member | index | slice | literal | identifier | array =>
      exact hnode
    | _ => rfl

theorem expressionLine_spelledOut (site : Site) (places : Places) (node : Node) :
    expressionLine names site (node.spelledOut places) = expressionLine names site node := by
  simp only [expressionLine, text_spelledOut]

mutual

theorem statement_spelledOut (site : Site) (braced : Bool) (places : Places) (node : Node) :
    statement setup names site braced (node.spelledOut places) =
      statement setup names site braced node := by
  cases node with
  | variableDecl =>
    simp only [Node.spelledOut, statement, variableText_spelledOut]
  | block _ body =>
    have hbody := fun site => statements_spelledOut site places body
    simp only [Node.spelledOut, statement, hbody]
  | exprStmt _ expression =>
    simp only [Node.spelledOut, statement, expressionLine_spelledOut]
  | ifStmt _ test consequent otherwise =>
    have hconsequent := fun site =>
      statement_spelledOut site false ((places.below 1).below 1) consequent
    have hotherwise :=
      alternate_spelledOut site ((places.below 2).below 1) (places.below 2) otherwise
    simp only [Node.spelledOut, statement, text_spelledOut, statement_asBody, hconsequent,
      hotherwise]
  | whileStmt _ test body =>
    have hbody := fun site => statement_spelledOut site false ((places.below 1).below 1) body
    simp only [Node.spelledOut, statement, text_spelledOut, statement_asBody, hbody]
  | forStmt _ start test update body =>
    have hbody := fun site => statement_spelledOut site false ((places.below 3).below 1) body
    simp only [Node.spelledOut, statement, loopStart_spelledOut, Site.afterStart_spelledOut,
      text?_spelledOut, statement_asBody, hbody]
  | returnStmt _ argument =>
    cases argument with
    | none => rfl
    | some value => simp only [Node.spelledOut, spelledOut?, statement, text_spelledOut]
  | assign | binary | unary | call | member | index | slice | literal | identifier | array =>
    exact expressionLine_spelledOut names site places _
  | _ => rfl
termination_by structural node

theorem statements_spelledOut (site : Site) (places : Places) (body : List Node) :
    statements setup names site (spelledOutMembers places body) =
      statements setup names site body := by
  cases body with
  | nil => rfl
  | cons node rest =>
    have hnode := statement_spelledOut site true ((places.below 0).below 1) node
    have hrest := statements_spelledOut (site.after node) (places.below 1) rest
    simp only [spelledOutMembers, statements, statement_asStatement, hnode,
      Site.after_asStatement, Site.after_spelledOut, hrest]
termination_by structural body

theorem alternate_spelledOut (site : Site) (places places' : Places) (otherwise : Option Node) :
    alternate setup names site ((spelledOut? places otherwise).map (asAlternate places')) =
      alternate setup names site otherwise := by
  cases otherwise with
  | none => rfl
  | some node =>
    refine (alternate_asAlternate setup names site places' _).trans ?_
    have hnode := statement_spelledOut site.enter false places node
    cases node with
    | ifStmt _ test consequent otherwise =>
      have hconsequent := fun site =>
        statement_spelledOut site false ((places.below 1).below 1) consequent
      have hotherwise :=
        alternate_spelledOut site ((places.below 2).below 1) (places.below 2) otherwise
      simp only [Node.spelledOut, alternate, text_spelledOut, statement_asBody, hconsequent,
        hotherwise]
    | _ =>
      exact congrArg (fun lines => opening "\x7d else" ++ Written.deeper lines ++ closing) hnode
termination_by structural otherwise

end

/-! ## Declarations -/

theorem functionDecl_spelledOut (site : Site) (name : String) (params : List TypedName)
    (returnType : Option String) (places places' : Places) (body : Node) :
    functionDecl setup names site name params returnType
        (asBody places' (body.spelledOut places)) =
      functionDecl setup names site name params returnType body := by
  simp only [functionDecl, functionBody, statement_asBody, statement_spelledOut]

theorem method_spelledOut (site : Site) (places : Places) (node : Node) :
    method setup names site (node.spelledOut places) = method setup names site node := by
  cases node with
  | functionDecl => exact functionDecl_spelledOut ..
  | _ => rfl

theorem namespaceItem_spelledOut (places places' : Places) (node : Node) :
    namespaceItem setup names (asStatement places (node.spelledOut places')) =
      namespaceItem setup names node := by
  cases node with
  | functionDecl => exact functionDecl_spelledOut ..
  | structDecl _ name fields methods =>
    have hmethods := Written.each_eq_of_map
      (map_spelledOutList (method_spelledOut setup names namespaceSite) places' methods)
    show structDecl setup names namespaceSite name fields (spelledOutList places' methods) = _
    simp only [namespaceItem, structDecl, hmethods]
  | variableDecl _ name type isConstant value =>
    exact congrArg (Written.withText · terminated) (variableText_spelledOut ..)
  | _ => rfl

/-! ## The file -/

theorem isDeclaration_spelledOut (places places' : Places) (node : Node) :
    isDeclaration (asStatement places (node.spelledOut places')) = isDeclaration node := by
  cases node <;> rfl

/-- A call of `main` is recognised whether it is marked as a statement or not. -/
theorem isEntryStatement_spelledOut (places places' : Places) (node : Node) :
    isEntryStatement (asStatement places (node.spelledOut places')) = isEntryStatement node := by
  have hcall : ∀ places node, isEntryCall (Node.spelledOut places node) = isEntryCall node := by
    intro places node
    cases node with
    | call _ callee _ => cases callee <;> rfl
    | _ => rfl
  cases node with
  | exprStmt _ expression => exact hcall places' expression
  | call loc callee arguments => exact hcall places' (.call loc callee arguments)
  | _ => rfl

theorem entryItem_spelledOut (places places' : Places) (node : Node) :
    entryItem setup names (asStatement places (node.spelledOut places')) =
      entryItem setup names node := by
  simp only [entryItem, isDeclaration_spelledOut, isEntryStatement_spelledOut,
    statement_asStatement, statement_spelledOut]

theorem importedModules_spelledOut (places : Places) (body : List Node) :
    importedModules (spelledOutMembers places body) = importedModules body :=
  importedModules_congr (filterMap_spelledOut (fun _ _ node => by cases node <;> rfl) places body)

theorem sourceFile_spelledOut (places : Places) (body : List Node) :
    sourceFile setup names (spelledOutMembers places body) = sourceFile setup names body := by
  have hdeclarations := Written.each_eq_of_map
    (map_spelledOutMembers (namespaceItem_spelledOut setup names) places body)
  have hstatements := Written.each_eq_of_map
    (map_spelledOutMembers (entryItem_spelledOut setup names) places body)
  simp only [sourceFile, prologue, importedModules_spelledOut, namespacePart, hdeclarations,
    entryPoint, hstatements]

end Outline

theorem Registry.ofTopLevel_spelledOut (places : Places) (body : List Node) :
    ofTopLevel (spelledOutMembers places body) = ofTopLevel body :=
  congrArg (registerAll empty)
    (filterMap_spelledOut (fun _ _ node => by cases node <;> rfl) places body)

/-- **Spelling a program out changes nothing.** A program in which every body is a block, and every
expression that stands as a statement is marked as one, has the same text as the program with the
shorter spellings, or it is refused for the same reason. That holds wherever the inserted nodes are
said to be. -/
theorem renderProgram_spelledOut (options : Options) (places : Places) (body : List Node) :
    renderProgram options (spelledOutMembers places body) = renderProgram options body := by
  rw [renderProgram_eq_text, renderProgram_eq_text, Registry.ofTopLevel_spelledOut,
    Outline.sourceFile_spelledOut]

example (places : Places) (loc : Location) :
    spelledOutMembers places
      [.ifStmt loc (.identifier loc "a") (.identifier loc "b") (some (.block loc []))] =
      [.ifStmt loc (.identifier loc "a")
        (.block (places [0, 1, 1]) [.exprStmt (places [0, 1, 1, 0]) (.identifier loc "b")])
        (some (.block loc []))] :=
  rfl

end TreeToCpp
