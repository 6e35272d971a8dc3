import TreeToCpp.Proofs.Steps

/-!
# The walk writes the outline

Run from a draft, every part of the walk writes exactly the lines of the outline at the site of that
draft, and comes to the same outcome. The induction is on the tree. It is carried by what a step
leaves behind: the scopes that a body opens are closed again whatever happens inside, so the next
statement of a list is written at the site that the outline says.

## Main results

* `Render.runs_statement`, `Render.settles_body` — statements, in a list and as a body
* `Render.keeps_functionDecl`, `Render.keeps_structDecl` — declarations
* `Render.keeps_sourceFile` — a program
* `renderProgram_eq_text` — the text of a program is the text of its outline
-/

namespace TreeToCpp

namespace Render

variable {step : Render Unit}

/-! ## Statements

The statements of a list share a scope, so what one of them leaves behind matters to the next. What
the body of a branch or a loop leaves behind is dropped with its scope; all that is asked of it is
that there is a scope to drop, which is what `Settles` says. -/

/-- The scopes behind a statement of a list. -/
def scopesAfter (scopes : Scopes) : Node → Scopes
  | .variableDecl _ name .. => scopes.declare name
  | _ => scopes

/-- The scopes behind the start of a loop. -/
def scopesAfterStart (scopes : Scopes) : Option Node → Scopes
  | some start => scopesAfter scopes start
  | none => scopes

theorem exit?_declare (scopes : Scopes) (name : String) :
    (scopes.declare name).exit? = scopes.exit? := by
  obtain ⟨frames⟩ := scopes
  cases frames <;> rfl

theorem exit?_scopesAfter (scopes : Scopes) (node : Node) :
    (scopesAfter scopes node).exit? = scopes.exit? := by
  cases node with
  | variableDecl _ name => exact exit?_declare scopes name
  | _ => rfl

theorem exit?_scopesAfterStart (scopes : Scopes) (start : Option Node) :
    (scopesAfterStart scopes start).exit? = scopes.exit? := by
  cases start with
  | none => rfl
  | some node => exact exit?_scopesAfter scopes node

theorem site_scopesAfter (draft : Draft) (node : Node) :
    { draft with scopes := scopesAfter draft.scopes node }.site = draft.site.after node := by
  cases node with
  | variableDecl _ name => exact draft.site_declare name
  | _ => rfl

theorem site_scopesAfterStart (draft : Draft) (start : Option Node) :
    { draft with scopes := scopesAfterStart draft.scopes start }.site =
      draft.site.afterStart start := by
  cases start with
  | none => rfl
  | some node => exact site_scopesAfter draft node

/-- Whatever a step leaves behind, the innermost scope can be closed as before. -/
def Settles (step : Render Unit) (write : Site → Written) : Prop :=
  ∀ draft : Draft, ∃ scopes, Runs step draft (write draft.site) scopes ∧
    scopes.exit? = draft.scopes.exit?

theorem Settles.nested {write : Site → Written} (h : Settles step write) (draft : Draft) :
    Keeps (Render.nested step) draft (write draft.site.enter).deeper := by
  obtain ⟨scopes, hruns, hexit⟩ :=
    h { draft with layout := draft.layout.indent, scopes := draft.scopes.enter }
  rw [Scopes.exit?_enter] at hexit
  rw [← Draft.site_enter]
  exact hruns.nested hexit

theorem exec_variableText (setup : Setup) (name : String) (type : Option String)
    (isConstant : Bool) (value : Option Node) (draft : Draft) :
    exec (variableText setup name type isConstant value) draft =
      (Outline.variableText setup setup.naming draft.site name type isConstant value,
        { draft with scopes := draft.scopes.declare name }) := by
  cases value with
  | none => rfl
  | some node =>
    show exec (text setup node >>= _) { draft with scopes := draft.scopes.declare name } = _
    rw [exec_bind, exec_text, Draft.site_declare, Outline.variableText]
    cases Outline.text setup.naming (draft.site.declare name) node <;> rfl

theorem exec_loopStart (setup : Setup) (start : Option Node) (draft : Draft) :
    exec (loopStart setup start) draft =
      (Outline.loopStart setup setup.naming draft.site start,
        { draft with scopes := scopesAfterStart draft.scopes start }) := by
  cases start with
  | none => rfl
  | some node =>
    cases node with
    | variableDecl _ name type isConstant value =>
      exact exec_variableText setup name type isConstant value draft
    | exprStmt _ node => exact exec_text setup node draft
    | assign | binary | unary | call | member | index | slice | literal | identifier | array =>
      exact exec_text setup _ draft
    | _ => rfl

theorem keeps_expressionLine (setup : Setup) (node : Node) (draft : Draft) :
    Keeps (expressionLine setup node) draft
      (Outline.expressionLine setup.naming draft.site node) :=
  keeps_text fun _ => keeps_line _

/-- Only a block writes anything else where the text around it has braces already. -/
theorem statement_of_ne_block (setup : Setup) {node : Node} (h : node.kind ≠ .block) :
    statement setup false node = statement setup true node ∧
      ∀ site, Outline.statement setup setup.naming site false node =
        Outline.statement setup setup.naming site true node := by
  cases node with
  | block => exact absurd rfl h
  | returnStmt _ argument => cases argument <;> exact ⟨rfl, fun _ => rfl⟩
  | _ => exact ⟨rfl, fun _ => rfl⟩

/-- Only another branch continues a chain. -/
theorem alternate_of_ne_ifStmt (setup : Setup) {node : Node} (h : node.kind ≠ .ifStmt) :
    (alternate setup (some node) = do
      opening "\x7d else"
      nested (statement setup false node)
      closing) ∧
      ∀ site, Outline.alternate setup setup.naming site (some node) =
        Outline.opening "\x7d else" ++
          (Outline.statement setup setup.naming site.enter false node).deeper ++
          Outline.closing := by
  cases node with
  | ifStmt => exact absurd rfl h
  | _ => exact ⟨rfl, fun _ => rfl⟩

mutual

theorem runs_statement (setup : Setup) (node : Node) (draft : Draft) :
    Runs (statement setup true node) draft
      (Outline.statement setup setup.naming draft.site true node)
      (scopesAfter draft.scopes node) := by
  cases node with
  | variableDecl _ name type isConstant value =>
    refine runs_withText (exec_variableText setup name type isConstant value draft) fun _ => ?_
    exact keeps_line _
  | block _ body =>
    have hbody := (settles_statements setup body).nested
    rw [statement, Outline.statement, if_pos rfl, if_pos rfl, Written.append_assoc]
    exact (keeps_line _).bind ((hbody _).bind (keeps_line _))
  | exprStmt _ node => exact keeps_expressionLine setup node draft
  | ifStmt _ test consequent otherwise =>
    have hbody := (settles_body setup consequent).nested
    refine keeps_text fun content => ?_
    rw [Written.append_assoc]
    exact (keeps_line _).bind ((hbody _).bind (keeps_alternate setup otherwise _))
  | whileStmt _ test body =>
    have hbody := (settles_body setup body).nested
    refine keeps_text fun content => ?_
    rw [Written.append_assoc]
    exact (keeps_line _).bind ((hbody _).bind (keeps_line _))
  | forStmt _ start test update body =>
    have hbody := (settles_body setup body).nested
    let inside : Draft :=
      { draft with scopes := scopesAfterStart draft.scopes.enter start }
    have hsite : inside.site = draft.site.enter.afterStart start := by
      rw [← Draft.site_enter]
      exact site_scopesAfterStart { draft with scopes := draft.scopes.enter } start
    -- The scope of the loop variable is closed behind the loop, so its name does not outlive it.
    have hloop : ∀ head : String, Keeps (do
        let test ← text? setup test
        let update ← text? setup update
        opening ("for (" ++ head ++ "; " ++ test ++ "; " ++ update ++ ")")
        nested (statement setup false body)
        closing) inside _ := fun head =>
      keeps_text? fun test => keeps_text? fun update =>
        (keeps_line _).bind ((hbody _).bind (keeps_line _))
    simp only [statement, Outline.statement, Written.append_assoc]
    rw [← hsite, ← Draft.site_enter]
    exact Runs.inScope (runs_withText (exec_loopStart setup start _) hloop)
      (exit?_scopesAfterStart _ _)
  | returnStmt _ argument =>
    cases argument with
    | none => exact keeps_line _
    | some node => exact keeps_text fun _ => keeps_line _
  | breakStmt | continueStmt => exact keeps_line _
  | functionDecl | structDecl | importDecl | program => exact keeps_throw
  | assign | binary | unary | call | member | index | slice | literal | identifier | array =>
    exact keeps_expressionLine setup _ draft
termination_by (sizeOf node, 0)

theorem settles_body (setup : Setup) (node : Node) :
    Settles (statement setup false node)
      (fun site => Outline.statement setup setup.naming site false node) := by
  by_cases hkind : node.kind = .block
  · cases node with
    | block _ body => exact settles_statements setup body
    | _ => simp [Node.kind] at hkind
  · intro draft
    obtain ⟨hwalk, houtline⟩ := statement_of_ne_block setup hkind
    refine ⟨scopesAfter draft.scopes node, ?_, exit?_scopesAfter _ _⟩
    simp only [hwalk, houtline]
    exact runs_statement setup node draft
termination_by (sizeOf node, 1)

theorem settles_statements (setup : Setup) (body : List Node) :
    Settles (statements setup body)
      (fun site => Outline.statements setup setup.naming site body) := by
  intro draft
  cases body with
  | nil => exact ⟨draft.scopes, keeps_return, rfl⟩
  | cons node rest =>
    have hnode := runs_statement setup node draft
    obtain ⟨outer, hrest, hexit⟩ := settles_statements setup rest
      { draft.wrote (Outline.statement setup setup.naming draft.site true node).lines with
        scopes := scopesAfter draft.scopes node }
    rw [exit?_scopesAfter] at hexit
    have hsite := site_scopesAfter
      (draft.wrote (Outline.statement setup setup.naming draft.site true node).lines) node
    rw [Draft.scopes_wrote, Draft.site_wrote] at hsite
    rw [hsite] at hrest
    obtain ⟨scopes, hscopes, h⟩ := hnode.bind hrest
    refine ⟨scopes, h, ?_⟩
    rcases hscopes with rfl | rfl
    · exact exit?_scopesAfter _ _
    · exact hexit
termination_by (sizeOf body, 0)

theorem keeps_alternate (setup : Setup) (otherwise : Option Node) (draft : Draft) :
    Keeps (alternate setup otherwise) draft
      (Outline.alternate setup setup.naming draft.site otherwise) := by
  cases otherwise with
  | none => exact keeps_line _
  | some node =>
    by_cases hkind : node.kind = .ifStmt
    · cases node with
      | ifStmt _ test consequent otherwise =>
        have hbody := (settles_body setup consequent).nested
        refine keeps_text fun content => ?_
        rw [Written.append_assoc]
        exact (keeps_line _).bind ((hbody _).bind (keeps_alternate setup otherwise _))
      | _ => simp [Node.kind] at hkind
    · have hbody := (settles_body setup node).nested
      obtain ⟨hwalk, houtline⟩ := alternate_of_ne_ifStmt setup hkind
      rw [hwalk, houtline, Written.append_assoc]
      exact (keeps_line _).bind ((hbody _).bind (keeps_line _))
termination_by (sizeOf otherwise, 0)

end

/-! ## Declarations -/

/-- The scopes behind the parameters of a function. -/
def scopesAfterParams (scopes : Scopes) (params : List TypedName) : Scopes :=
  params.foldl (fun scopes param => scopes.declare param.name) scopes

theorem exec_params (params : List TypedName) (draft : Draft) :
    exec (params.forM fun param => declare param.name) draft =
      (.ok (), { draft with scopes := scopesAfterParams draft.scopes params }) := by
  induction params generalizing draft with
  | nil => rfl
  | cons param rest ih =>
    show exec (declare param.name >>= fun _ => rest.forM fun (param : TypedName) =>
      declare param.name) draft = _
    rw [exec_bind]
    exact ih { draft with scopes := draft.scopes.declare param.name }

theorem site_scopesAfterParams (params : List TypedName) (draft : Draft) :
    { draft with scopes := scopesAfterParams draft.scopes params }.site =
      params.foldl (fun site param => site.declare param.name) draft.site := by
  induction params generalizing draft with
  | nil => rfl
  | cons param rest ih =>
    rw [List.foldl_cons, ← Draft.site_declare]
    exact ih { draft with scopes := draft.scopes.declare param.name }

theorem exit?_scopesAfterParams (params : List TypedName) (scopes : Scopes) :
    (scopesAfterParams scopes params).exit? = scopes.exit? := by
  rw [scopesAfterParams]
  induction params generalizing scopes with
  | nil => rfl
  | cons param rest ih => rw [List.foldl_cons, ih, exit?_declare]

theorem keeps_functionBody (setup : Setup) (name : String) (params : List TypedName)
    (returnType : Option String) (body : Node) (draft : Draft) :
    Keeps (inRegion .function do
      inScope do
        params.forM fun param => declare param.name
        opening (typeText setup (some (returnType.getD defaultReturnType)) ++ " " ++ mangle name ++
          parenthesized (paramsText setup params))
        nested (statement setup false body)
        closing) draft
      (Outline.functionBody setup setup.naming draft.site name params returnType body) := by
  have hbody := (settles_body setup body).nested
  let inside : Draft :=
    { draft with region := .function, scopes := scopesAfterParams draft.scopes.enter params }
  have hsite : inside.site = Outline.paramsSite draft.site params := by
    rw [Outline.paramsSite]
    rw [← Draft.site_enter]
    exact site_scopesAfterParams params
      { draft with region := .function, scopes := draft.scopes.enter }
  have hinside : Keeps (do
      opening (typeText setup (some (returnType.getD defaultReturnType)) ++ " " ++ mangle name ++
        parenthesized (paramsText setup params))
      nested (statement setup false body)
      closing) inside
      (Outline.functionBody setup setup.naming draft.site name params returnType body) := by
    rw [Outline.functionBody]
    rw [← hsite, Written.append_assoc]
    exact (keeps_line _).bind ((hbody _).bind (keeps_line _))
  have hscoped : Runs (do
      params.forM fun param => declare param.name
      opening (typeText setup (some (returnType.getD defaultReturnType)) ++ " " ++ mangle name ++
        parenthesized (paramsText setup params))
      nested (statement setup false body)
      closing) { draft with region := .function, scopes := draft.scopes.enter }
      (Outline.functionBody setup setup.naming draft.site name params returnType body)
      inside.scopes := by
    rw [Runs]
    rw [exec_bind, exec_params]
    exact hinside
  exact Keeps.inRegion (Runs.inScope hscoped (exit?_scopesAfterParams params _))

theorem keeps_functionDecl (setup : Setup) (name : String) (params : List TypedName)
    (returnType : Option String) (body : Node) (draft : Draft) :
    Keeps (functionDecl setup name params returnType body) draft
      (Outline.functionDecl setup setup.naming draft.site name params returnType body) := by
  have hbody := keeps_functionBody setup name params returnType body
  rw [Outline.functionDecl, Outline.functionComment]
  rw [Written.append_assoc]
  refine keeps_blankLine.bind ?_
  by_cases hcomment : setup.options.docComments = true
  · rw [if_pos hcomment, if_pos hcomment]
    exact (keeps_line _).bind (hbody _)
  · rw [if_neg hcomment, if_neg hcomment]
    exact hbody _

theorem keeps_method (setup : Setup) (node : Node) (draft : Draft) :
    Keeps (method setup node) draft (Outline.method setup setup.naming draft.site node) := by
  cases node with
  | functionDecl _ name params returnType body =>
    exact keeps_functionDecl setup name params returnType body draft
  | _ => exact keeps_throw

theorem keeps_structDecl (setup : Setup) (name : String) (fields : List TypedName)
    (methods : List Node) (draft : Draft) :
    Keeps (structDecl setup name fields methods) draft
      (Outline.structDecl setup setup.naming draft.site name fields methods) := by
  have hfields : ∀ draft : Draft, Keeps
      (fields.forM fun entry => terminated (typedNameText setup entry)) draft
      (Written.each (fun entry => Outline.terminated (typedNameText setup entry)) fields) :=
    fun draft => keeps_forM fun _ _ _ => keeps_line _
  have hmethods : ∀ draft : Draft, Keeps (methods.forM (method setup)) draft
      (Written.each (Outline.method setup setup.naming draft.site) methods) :=
    fun draft => keeps_forM fun lines node _ => keeps_method setup node (draft.wrote lines)
  rw [Outline.structDecl]
  rw [Written.append_assoc, Written.append_assoc]
  exact keeps_blankLine.bind ((keeps_line _).bind
    ((Keeps.indented ((hfields _).bind (hmethods _))).bind (keeps_line _)))

theorem runs_globalVariable (setup : Setup) (name : String) (type : Option String)
    (isConstant : Bool) (value : Option Node) (draft : Draft) :
    Runs (globalVariable setup name type isConstant value) draft
      (Outline.globalVariable setup setup.naming draft.site name type isConstant value)
      (draft.scopes.declare name) :=
  runs_withText (exec_variableText setup name type isConstant value draft) fun _ => keeps_line _

/-! ## The file

At the top level no scope is open. A variable there is global, and what the walk would do to declare
it as a local has no effect. -/

theorem keeps_prologue (setup : Setup) (body : List Node) (draft : Draft) :
    Keeps (prologue setup body) draft (Outline.prologue setup body) := by
  have hlines : ∀ (lines : List String) (draft : Draft),
      Keeps (lines.forM line) draft (Written.each .code lines) :=
    fun _ _ => keeps_forM fun _ _ _ => keeps_line _
  have hheaders : ∀ (headers : List String) (draft : Draft),
      Keeps (headers.forM includeLine) draft (Written.each Outline.includeLine headers) :=
    fun _ _ => keeps_forM fun _ _ _ => keeps_line _
  have hmodules : ∀ draft : Draft, Keeps ((importedModules body).forM fun path =>
      includeLine (quotedHeader (path ++ SupportLibrary.headerExtension))) draft
      (Written.each (fun path =>
        Outline.includeLine (quotedHeader (path ++ SupportLibrary.headerExtension)))
        (importedModules body)) :=
    fun _ => keeps_forM fun _ _ _ => keeps_line _
  have hrest : ∀ draft : Draft, Keeps (do
      includeLine (quotedHeader SupportLibrary.header)
      SupportLibrary.standardHeaders.forM includeLine
      (importedModules body).forM fun path =>
        includeLine (quotedHeader (path ++ SupportLibrary.headerExtension))
      blankLine) draft _ := fun _ =>
    (keeps_line _).bind ((hheaders _ _).bind ((hmodules _).bind keeps_blankLine))
  rw [prologue, Outline.prologue]
  simp only [Written.append_assoc]
  by_cases hbanner : setup.options.banner = true
  · simp only [if_pos hbanner, Written.append_assoc]
    exact (hlines _ _).bind (keeps_blankLine.bind (hrest _))
  · simp only [if_neg hbanner, Written.nothing_append]
    exact hrest draft

theorem declare_empty (name : String) : Scopes.empty.declare name = Scopes.empty := rfl

theorem keeps_namespaceItem (setup : Setup) (node : Node) {draft : Draft}
    (hscopes : draft.scopes = Scopes.empty) (hregion : draft.region = .namespaceScope) :
    Keeps (namespaceItem setup node) draft (Outline.namespaceItem setup setup.naming node) := by
  have hsite : draft.site = Outline.namespaceSite := by
    rw [Draft.site]
    rw [hscopes, hregion]
    rfl
  cases node with
  | functionDecl _ name params returnType body =>
    rw [Outline.namespaceItem, ← hsite]
    exact keeps_functionDecl setup name params returnType body draft
  | structDecl _ name fields methods =>
    rw [Outline.namespaceItem, ← hsite]
    exact keeps_structDecl setup name fields methods draft
  | variableDecl _ name type isConstant value =>
    have h := runs_globalVariable setup name type isConstant value draft
    rw [hscopes, declare_empty, ← hscopes] at h
    rw [Outline.namespaceItem, ← hsite]
    exact h
  | _ => exact keeps_return

theorem keeps_namespacePart (setup : Setup) (body : List Node) {draft : Draft}
    (hscopes : draft.scopes = Scopes.empty) :
    Keeps (namespacePart setup body) draft (Outline.namespacePart setup setup.naming body) := by
  have hitems : ∀ lines, Keeps
      (inRegion .namespaceScope (indented (body.forM (namespaceItem setup)))) (draft.wrote lines)
      (Written.each (Outline.namespaceItem setup setup.naming) body).deeper := fun _ =>
    Keeps.inRegion (Keeps.indented (keeps_forM fun _ node _ =>
      keeps_namespaceItem setup node hscopes rfl))
  rw [Outline.namespacePart]
  simp only [Written.append_assoc]
  exact (keeps_line _).bind ((hitems _).bind
    (keeps_blankLine.bind ((keeps_line _).bind keeps_blankLine)))

theorem keeps_entryItem (setup : Setup) (node : Node) {draft : Draft}
    (hscopes : draft.scopes = Scopes.empty) (hregion : draft.region = .entryPoint) :
    Keeps (entryItem setup node) draft (Outline.entryItem setup setup.naming node) := by
  have hsite : draft.site = Outline.entrySite := by
    rw [Draft.site]
    rw [hscopes, hregion]
    rfl
  rw [entryItem, Outline.entryItem]
  split
  next => exact keeps_return
  next hwritten =>
    have hnode := runs_statement setup node draft
    have hscopes : scopesAfter draft.scopes node = draft.scopes := by
      cases node with
      | variableDecl => simp [isDeclaration] at hwritten
      | _ => rfl
    rw [hscopes, hsite] at hnode
    exact hnode

theorem keeps_entryCall (setup : Setup) (draft : Draft) :
    Keeps (entryCall setup) draft (Outline.entryCall setup) := by
  rw [entryCall, Outline.entryCall]
  split
  · exact keeps_line _
  · exact keeps_return

theorem keeps_entryBody (setup : Setup) (body : List Node) {draft : Draft}
    (hscopes : draft.scopes = Scopes.empty) (hregion : draft.region = .entryPoint) :
    Keeps (entryBody setup body) draft
      (Written.each (Outline.entryItem setup setup.naming) body ++
        (Outline.entryCall setup ++ .code "return 0;")) := by
  have hitems : Keeps (body.forM (entryItem setup)) draft
      (Written.each (Outline.entryItem setup setup.naming) body) :=
    keeps_forM fun _ node _ => keeps_entryItem setup node hscopes hregion
  exact hitems.bind ((keeps_entryCall setup _).bind (keeps_line _))

theorem keeps_entryPoint (setup : Setup) (body : List Node) {draft : Draft}
    (hscopes : draft.scopes = Scopes.empty) :
    Keeps (entryPoint setup body) draft (Outline.entryPoint setup setup.naming body) := by
  have hcatch : ∀ draft : Draft, Keeps (indented catchBody) draft Outline.catchBody.deeper :=
    fun _ => Keeps.indented ((keeps_line _).bind (keeps_line _))
  rw [Outline.entryPoint]
  simp only [Written.append_assoc]
  refine (keeps_line _).bind ((Keeps.indented ((keeps_line _).bind (Keeps.bind ?_
    ((keeps_line _).bind ((hcatch _).bind (keeps_line _)))))).bind (keeps_line _))
  exact Keeps.inRegion (Keeps.indented (keeps_entryBody setup body hscopes rfl))

/-- **The walk writes the outline.** -/
theorem keeps_sourceFile (setup : Setup) (body : List Node) :
    Keeps (sourceFile setup body) (Draft.start setup.options)
      (Outline.sourceFile setup setup.naming body) := by
  rw [Outline.sourceFile]
  rw [Written.append_assoc]
  exact (keeps_prologue setup body _).bind
    ((keeps_namespacePart setup body rfl).bind (keeps_entryPoint setup body rfl))

end Render

/-- The text of a program is the text of its outline. -/
theorem renderProgram_eq_text (options : Options) (body : List Node) :
    renderProgram options body =
      (Outline.sourceFile { options := options, registry := Registry.ofTopLevel body }
        (lexicalNaming options.namespaceName (Registry.ofTopLevel body).contains) body).text
        options.indentWidth := by
  let setup : Setup := { options := options, registry := Registry.ofTopLevel body }
  have h : Render.exec (Render.sourceFile setup body) (Draft.start options) = _ :=
    Render.keeps_sourceFile setup body
  show (Render.exec (Render.sourceFile setup body) (Draft.start options)).1.map (fun _ =>
    (Render.exec (Render.sourceFile setup body) (Draft.start options)).2.layout.text) = _
  rw [h]
  simp [Written.text, Draft.wrote, Draft.start, Layout.write, Layout.empty]
  rfl

end TreeToCpp
