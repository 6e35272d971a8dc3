import TreeToCpp.Render.SourceFile

/-!
# Well-placed programs

The tree lets any kind of node stand anywhere, and not every place has a use for every kind. This
file says which programs are well placed, and which nodes are at fault in the others. Neither side
mentions how a program is written.

The two are said apart on purpose. `IsValue`, `IsStatement` and `WellPlaced` are a grammar: what may
stand where. `StrayInValue`, `StrayInStatement` and `Stray` point at single nodes: a node is stray
if its place has no use for its kind, however deep the place is. That a program is well placed exactly
if it has no stray nodes is not part of the definitions.

## Main definitions

* `IsValue`, `IsStatement`, `WellPlaced` — what may stand where
* `Node.operands`, `Node.values`, `Node.bodies` — the parts of a node
* `StrayInValue`, `StrayInStatement`, `Stray` — nodes at fault, and the complaint about them

## Main results

* `StrayInValue.not_isValue`, `StrayInStatement.not_isStatement` — a stray node spoils what it is in
* `Stray.not_wellPlaced` — a well-placed program has no stray node
-/

namespace TreeToCpp

/-! ## What may stand where -/

/-- A node that has members, can be cut into slices and can be called, as far as its kind goes. -/
def HasParts (object : Node) : Prop :=
  object.kind ≠ .literal ∧ object.kind ≠ .array ∧ object.kind ≠ .assign

/-- A node that has items. Of the literals, only a string does. -/
def HasItems (object : Node) : Prop :=
  HasParts object ∨ ∃ loc text, object = .literal loc (.string text)

/-- A node that stands for a value, with parts that do. -/
inductive IsValue : Node → Prop
  | assign {loc left right} : IsValue left → IsValue right → IsValue (.assign loc left right)
  | binary {loc operator left right} :
      IsValue left → IsValue right → IsValue (.binary loc operator left right)
  | unary {loc operator argument} : IsValue argument → IsValue (.unary loc operator argument)
  | call {loc callee arguments} :
      HasParts callee → IsValue callee → (∀ argument ∈ arguments, IsValue argument) →
      IsValue (.call loc callee arguments)
  | member {loc object property} :
      HasParts object → IsValue object → IsValue (.member loc object property)
  | index {loc object position} :
      HasItems object → IsValue object → IsValue position → IsValue (.index loc object position)
  | slice {loc object lower upper} :
      HasParts object → IsValue object → (∀ bound ∈ lower, IsValue bound) →
      (∀ bound ∈ upper, IsValue bound) → IsValue (.slice loc object lower upper)
  | literal {loc value} : IsValue (.literal loc value)
  | identifier {loc name} : IsValue (.identifier loc name)
  | array {loc elements} :
      (∀ element ∈ elements, IsValue element) → IsValue (.array loc elements)

/-- What a loop may start with. -/
inductive IsLoopStart : Node → Prop
  | variableDecl {loc name type isConstant value} :
      (∀ node ∈ value, IsValue node) →
      IsLoopStart (.variableDecl loc name type isConstant value)
  | exprStmt {loc expression} : IsValue expression → IsLoopStart (.exprStmt loc expression)
  | value {node} : IsValue node → IsLoopStart node

/-- A node that may stand among statements or as the body of a branch, a loop or a function. -/
inductive IsStatement : Node → Prop
  | variableDecl {loc name type isConstant value} :
      (∀ node ∈ value, IsValue node) →
      IsStatement (.variableDecl loc name type isConstant value)
  | block {loc body} : (∀ node ∈ body, IsStatement node) → IsStatement (.block loc body)
  | exprStmt {loc expression} : IsValue expression → IsStatement (.exprStmt loc expression)
  | ifStmt {loc test consequent otherwise} :
      IsValue test → IsStatement consequent → (∀ node ∈ otherwise, IsStatement node) →
      IsStatement (.ifStmt loc test consequent otherwise)
  | whileStmt {loc test body} :
      IsValue test → IsStatement body → IsStatement (.whileStmt loc test body)
  | forStmt {loc start test update body} :
      (∀ node ∈ start, IsLoopStart node) → (∀ node ∈ test, IsValue node) →
      (∀ node ∈ update, IsValue node) → IsStatement body →
      IsStatement (.forStmt loc start test update body)
  | breakStmt {loc} : IsStatement (.breakStmt loc)
  | continueStmt {loc} : IsStatement (.continueStmt loc)
  | returnStmt {loc argument} :
      (∀ node ∈ argument, IsValue node) → IsStatement (.returnStmt loc argument)
  | value {node} : IsValue node → IsStatement node

/-- A node that may stand among the methods of a structure. -/
inductive IsMethod : Node → Prop
  | functionDecl {loc name params returnType body} :
      IsStatement body → IsMethod (.functionDecl loc name params returnType body)

/-- The first declaration of `main` at the top level is a function. -/
def MainIsFunction (body : List Node) : Prop :=
  (body.filterMap Registry.declaration?).lookup "main" = some .function

/-- A direct call of `main`, on its own or as a statement. -/
inductive IsMainCall : Node → Prop
  | call {loc loc' arguments} : IsMainCall (.call loc (.identifier loc' "main") arguments)
  | exprStmt {loc loc' loc'' arguments} :
      IsMainCall (.exprStmt loc'' (.call loc (.identifier loc' "main") arguments))

/-- A node that may stand at the top level of a program. A call of `main` that the entry point makes
anyway may have any arguments. -/
inductive IsItem (body : List Node) : Node → Prop
  | importDecl {loc module} : IsItem body (.importDecl loc module)
  | functionDecl {loc name params returnType fbody} :
      IsStatement fbody → IsItem body (.functionDecl loc name params returnType fbody)
  | structDecl {loc name fields methods} :
      (∀ node ∈ methods, IsMethod node) → IsItem body (.structDecl loc name fields methods)
  | variableDecl {loc name type isConstant value} :
      (∀ node ∈ value, IsValue node) →
      IsItem body (.variableDecl loc name type isConstant value)
  | mainCall {node} : MainIsFunction body → IsMainCall node → IsItem body node
  | statement {node} : IsStatement node → IsItem body node

/-- Every node of the program stands in a place that has a use for it. -/
def WellPlaced (body : List Node) : Prop :=
  ∀ node ∈ body, IsItem body node

/-! ## Parts of a node -/

namespace Node

/-- The parts of an expression. -/
def operands : Node → List Node
  | .assign _ left right => [left, right]
  | .binary _ _ left right => [left, right]
  | .unary _ _ argument => [argument]
  | .call _ callee arguments => callee :: arguments
  | .member _ object _ => [object]
  | .index _ object position => [object, position]
  | .slice _ object lower upper => object :: (lower.toList ++ upper.toList)
  | .array _ elements => elements
  | _ => []

/-- The expressions that a loop starts with. -/
def startValues (start : Node) : List Node :=
  match start with
  | .variableDecl _ _ _ _ value => value.toList
  | .exprStmt _ expression => [expression]
  | node => if node.kind.isExpression then [node] else []

/-- The expressions that stand directly in a statement. -/
def values (statement : Node) : List Node :=
  match statement with
  | .variableDecl _ _ _ _ value => value.toList
  | .exprStmt _ expression => [expression]
  | .ifStmt _ test _ _ => [test]
  | .whileStmt _ test _ => [test]
  | .forStmt _ start test update _ =>
    start.toList.flatMap startValues ++ test.toList ++ update.toList
  | .returnStmt _ argument => argument.toList
  | node => if node.kind.isExpression then [node] else []

/-- The statements that stand directly in a statement. -/
def bodies : Node → List Node
  | .block _ body => body
  | .ifStmt _ _ consequent otherwise => consequent :: otherwise.toList
  | .whileStmt _ _ body => [body]
  | .forStmt _ _ _ _ body => [body]
  | _ => []

end Node

/-! ## Nodes at fault -/

/-- A node in an expression, or the expression itself, is at fault. -/
inductive StrayInValue : Node → Node → Misplacement → Prop
  | notAValue {node} : node.kind.isExpression = false → StrayInValue node node .expression
  | callee {loc callee arguments} :
      ¬HasParts callee → StrayInValue (.call loc callee arguments) callee .notCallable
  | member {loc object property} :
      ¬HasParts object → StrayInValue (.member loc object property) object .noMembers
  | index {loc object position} :
      ¬HasItems object → StrayInValue (.index loc object position) object .notIndexable
  | slice {loc object lower upper} :
      ¬HasParts object → StrayInValue (.slice loc object lower upper) object .notSliceable
  | operand {expression part node place} :
      part ∈ expression.operands → StrayInValue part node place →
      StrayInValue expression node place

/-- A node in a statement, or the statement itself, is at fault. -/
inductive StrayInStatement : Node → Node → Misplacement → Prop
  | functionDecl {node} :
      node.kind = .functionDecl → StrayInStatement node node .nestedInBlock
  | structDecl {node} : node.kind = .structDecl → StrayInStatement node node .nestedInBlock
  | importDecl {node} : node.kind = .importDecl → StrayInStatement node node .outsideTopLevel
  | program {node} : node.kind = .program → StrayInStatement node node .belowRoot
  | loopStart {loc start test update body} :
      start.kind ≠ .variableDecl → start.kind ≠ .exprStmt → start.kind.isExpression = false →
      StrayInStatement (.forStmt loc (some start) test update body) start .loopStart
  | value {statement expression node place} :
      expression ∈ statement.values → StrayInValue expression node place →
      StrayInStatement statement node place
  | body {statement part node place} :
      part ∈ statement.bodies → StrayInStatement part node place →
      StrayInStatement statement node place

/-- A node of the top level that is neither an import nor a declaration. -/
def IsFree (node : Node) : Prop :=
  node.kind ≠ .importDecl ∧ node.kind ≠ .functionDecl ∧ node.kind ≠ .structDecl ∧
    node.kind ≠ .variableDecl

/-- A node of a program is at fault. -/
inductive Stray (body : List Node) : Node → Misplacement → Prop
  | functionDecl {loc name params returnType fbody node place} :
      .functionDecl loc name params returnType fbody ∈ body →
      StrayInStatement fbody node place → Stray body node place
  | method {loc name fields methods node} :
      .structDecl loc name fields methods ∈ body → node ∈ methods →
      node.kind ≠ .functionDecl → Stray body node .method
  | methodBody {loc name fields methods loc' name' params returnType fbody node place} :
      .structDecl loc name fields methods ∈ body →
      .functionDecl loc' name' params returnType fbody ∈ methods →
      StrayInStatement fbody node place → Stray body node place
  | variableDecl {loc name type isConstant value node place} :
      .variableDecl loc name type isConstant (some value) ∈ body →
      StrayInValue value node place → Stray body node place
  | statement {item node place} :
      item ∈ body → IsFree item → ¬(MainIsFunction body ∧ IsMainCall item) →
      StrayInStatement item node place → Stray body node place

/-! ## A stray node spoils what it is in

Being well placed is inherited by the parts of a node, and no node that is at fault itself passes
the grammar. -/

theorem IsValue.isExpression {node : Node} (h : IsValue node) : node.kind.isExpression = true := by
  cases h <;> rfl

theorem IsValue.operands {expression : Node} (h : IsValue expression) :
    ∀ part ∈ expression.operands, IsValue part := by
  cases h with
  | assign hleft hright | binary hleft hright =>
    simp only [Node.operands, List.forall_mem_cons]
    exact ⟨hleft, hright, by simp⟩
  | unary hargument => simpa [Node.operands] using hargument
  | call _ hcallee harguments => simpa [Node.operands] using ⟨hcallee, harguments⟩
  | member _ hobject => simpa [Node.operands] using hobject
  | index _ hobject hposition => simpa [Node.operands] using ⟨hobject, hposition⟩
  | slice _ hobject hlower hupper =>
    simp only [Node.operands, List.forall_mem_cons, List.forall_mem_append, Option.mem_toList]
    exact ⟨hobject, hlower, hupper⟩
  | literal | identifier => simp [Node.operands]
  | array helements => exact helements

theorem IsValue.startValues {node : Node} (h : IsValue node) : node.startValues = [node] := by
  cases h <;> rfl

theorem IsValue.values {node : Node} (h : IsValue node) : node.values = [node] := by
  cases h <;> rfl

theorem IsValue.bodies {node : Node} (h : IsValue node) : node.bodies = [] := by
  cases h <;> rfl

theorem StrayInValue.not_isValue {expression node : Node} {place : Misplacement}
    (h : StrayInValue expression node place) : ¬IsValue expression := by
  intro hvalue
  induction h with
  | notAValue hkind => simp [hvalue.isExpression] at hkind
  | callee hparts => cases hvalue with | call hcallee => exact hparts hcallee
  | member hparts => cases hvalue with | member hobject => exact hparts hobject
  | index hitems => cases hvalue with | index hobject => exact hitems hobject
  | slice hparts => cases hvalue with | slice hobject => exact hparts hobject
  | operand hpart _ ih => exact ih (hvalue.operands _ hpart)

theorem IsLoopStart.startValues {start : Node} (h : IsLoopStart start) :
    ∀ expression ∈ start.startValues, IsValue expression := by
  cases h with
  | variableDecl hvalue => simpa [Node.startValues] using hvalue
  | exprStmt hvalue => simpa [Node.startValues] using hvalue
  | value hvalue => simpa [hvalue.startValues] using hvalue

theorem IsStatement.values {statement : Node} (h : IsStatement statement) :
    ∀ expression ∈ statement.values, IsValue expression := by
  cases h with
  | variableDecl hvalue => simpa [Node.values] using hvalue
  | block | breakStmt | continueStmt => simp [Node.values, Node.kind, Kind.isExpression]
  | exprStmt hvalue => simpa [Node.values] using hvalue
  | ifStmt htest | whileStmt htest => simpa [Node.values] using htest
  | forStmt hstart htest hupdate =>
    simp only [Node.values, List.forall_mem_append, List.forall_mem_flatMap, Option.mem_toList]
    exact ⟨⟨fun node hnode => (hstart node hnode).startValues, htest⟩, hupdate⟩
  | returnStmt hargument => simpa [Node.values] using hargument
  | value hvalue => simpa [hvalue.values] using hvalue

theorem IsStatement.bodies {statement : Node} (h : IsStatement statement) :
    ∀ part ∈ statement.bodies, IsStatement part := by
  cases h with
  | block hbody => exact hbody
  | ifStmt _ hconsequent hotherwise =>
    simpa [Node.bodies] using ⟨hconsequent, hotherwise⟩
  | whileStmt _ hbody => simpa [Node.bodies] using hbody
  | forStmt _ _ _ hbody => simpa [Node.bodies] using hbody
  | variableDecl | exprStmt | breakStmt | continueStmt | returnStmt => simp [Node.bodies]
  | value hvalue => simp [hvalue.bodies]

theorem IsStatement.of_kind {statement : Node} (h : IsStatement statement) :
    statement.kind ≠ .functionDecl ∧ statement.kind ≠ .structDecl ∧
      statement.kind ≠ .importDecl ∧ statement.kind ≠ .program := by
  cases h with
  | value hvalue => cases hvalue <;> simp [Node.kind]
  | _ => simp [Node.kind]

theorem IsLoopStart.of_kind {start : Node} (h : IsLoopStart start) :
    start.kind = .variableDecl ∨ start.kind = .exprStmt ∨ start.kind.isExpression = true := by
  cases h with
  | variableDecl => exact .inl rfl
  | exprStmt => exact .inr (.inl rfl)
  | value hvalue => exact .inr (.inr hvalue.isExpression)

theorem StrayInStatement.not_isStatement {statement node : Node} {place : Misplacement}
    (h : StrayInStatement statement node place) : ¬IsStatement statement := by
  intro hstatement
  induction h with
  | functionDecl hkind => exact hstatement.of_kind.1 hkind
  | structDecl hkind => exact hstatement.of_kind.2.1 hkind
  | importDecl hkind => exact hstatement.of_kind.2.2.1 hkind
  | program hkind => exact hstatement.of_kind.2.2.2 hkind
  | loopStart hvariable hexprStmt hkind =>
    cases hstatement with
    | forStmt hstart => simpa [hvariable, hexprStmt, hkind] using (hstart _ rfl).of_kind
    | value hvalue => cases hvalue
  | value hmem hstray => exact hstray.not_isValue (hstatement.values _ hmem)
  | body hpart _ ih => exact ih (hstatement.bodies _ hpart)

theorem IsMainCall.isFree {node : Node} (h : IsMainCall node) : IsFree node := by
  cases h <;> simp [IsFree, Node.kind]

theorem Stray.not_wellPlaced {body : List Node} {node : Node} {place : Misplacement}
    (h : Stray body node place) : ¬WellPlaced body := by
  intro hplaced
  cases h with
  | functionDecl hitem hstray =>
    cases hplaced _ hitem with
    | functionDecl hbody => exact hstray.not_isStatement hbody
    | mainCall _ hcall => exact hcall.isFree.2.1 rfl
    | statement hstatement => exact hstatement.of_kind.1 rfl
  | method hitem hmethod hkind =>
    cases hplaced _ hitem with
    | structDecl hmethods => cases hmethods _ hmethod with | functionDecl => exact hkind rfl
    | mainCall _ hcall => exact hcall.isFree.2.2.1 rfl
    | statement hstatement => exact hstatement.of_kind.2.1 rfl
  | methodBody hitem hmethod hstray =>
    cases hplaced _ hitem with
    | structDecl hmethods =>
      cases hmethods _ hmethod with | functionDecl hbody => exact hstray.not_isStatement hbody
    | mainCall _ hcall => exact hcall.isFree.2.2.1 rfl
    | statement hstatement => exact hstatement.of_kind.2.1 rfl
  | variableDecl hitem hstray =>
    cases hplaced _ hitem with
    | variableDecl hvalue => exact hstray.not_isValue (hvalue _ rfl)
    | mainCall _ hcall => exact hcall.isFree.2.2.2 rfl
    | statement hstatement => exact hstray.not_isValue (hstatement.values _ (by simp [Node.values]))
  | statement hitem hfree hskipped hstray =>
    cases hplaced _ hitem with
    | importDecl => exact hfree.1 rfl
    | functionDecl => exact hfree.2.1 rfl
    | structDecl => exact hfree.2.2.1 rfl
    | variableDecl => exact hfree.2.2.2 rfl
    | mainCall hmain hcall => exact hskipped ⟨hmain, hcall⟩
    | statement hstatement => exact hstray.not_isStatement hstatement

end TreeToCpp
