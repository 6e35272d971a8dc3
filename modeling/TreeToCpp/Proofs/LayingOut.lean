import TreeToCpp.Proofs.Assembly
import TreeToCpp.Proofs.Wording

/-!
# How lines are laid out

A brace that opens stands at the end of a line, a brace that closes at the beginning of one, and
both stand alone there: the rest of a line is made of the pieces that any text is made of, in which
braces only come in pairs. The depth of a line is the number of braces that are open around it.

All lines of a program but those of the banner are laid out like this. The proof goes through the
outline, where the lines of a body are those of its statements one level deeper; so it is enough
that every body is put between two braces.

## Main definitions

* `Laid` — lines with their braces in step with their depth, and the names that they show
* `Node.statementNames`, `writtenNames` — the names that a statement and a program show

## Main results

* `Laid.deeper` — lines may be moved one level to the right
* `Outline.laidOut_statement` — statements
* `Outline.laidOut_page` — programs
-/

namespace TreeToCpp

/-! ## Lines with braces -/

/-- Lines between which braces are opened and closed, `before` of them open in front of the lines
and `behind` of them behind, and the names that the lines show. -/
inductive Laid (stock : Stock) :
    (before : Nat) → (lines : List Line) → (behind : Nat) → (written : List String) → Prop
  | nothing {depth} : Laid stock depth [] depth []
  | blank {depth} : Laid stock depth [.blank] depth []
  | plain {depth content written} : Composed stock true content written →
      Laid stock depth [.code depth content] depth written
  | brace {depth} : Laid stock depth [.code depth "\x7b"] (depth + 1) []
  | opening {depth head written} : Composed stock true head written →
      Laid stock depth [.code depth (head ++ " \x7b")] (depth + 1) written
  | closing {depth led tail written} : Composed stock led tail written →
      Laid stock (depth + 1) [.code depth ("\x7d" ++ tail)] depth written
  | turning {depth led middle written} : Composed stock led middle written →
      Laid stock (depth + 1) [.code depth ("\x7d" ++ middle ++ " \x7b")] (depth + 1) written
  | append {before between behind first rest written written'} :
      Laid stock before first between written → Laid stock between rest behind written' →
      Laid stock before (first ++ rest) behind (written ++ written')

variable {stock : Stock} {before between behind depth : Nat} {content : String}
  {written written' : List String}

/-- Lines may be moved one level to the right, into one more brace. -/
theorem Laid.deeper {lines : List Line} (h : Laid stock before lines behind written) :
    Laid stock (before + 1) (lines.map Line.deeper) (behind + 1) written := by
  induction h with
  | nothing => exact .nothing
  | blank => exact .blank
  | plain h => exact .plain h
  | brace => exact .brace
  | opening h => exact .opening h
  | closing h => exact .closing h
  | turning h => exact .turning h
  | append _ _ ihfirst ihrest =>
    rw [List.map_append]
    exact ihfirst.append ihrest

/-- If no failure cuts them short, the lines are laid out. -/
def Written.LaidOut (lines : Written) (stock : Stock) (before behind : Nat)
    (written : List String) : Prop :=
  lines.outcome = .ok () → Laid stock before lines.lines behind written

namespace Written.LaidOut

theorem nothing : LaidOut .nothing stock depth depth [] := fun _ => .nothing

theorem blank : LaidOut .blank stock depth depth [] := fun _ => .blank

theorem failure {error : RenderError} : LaidOut (.failure error) stock before behind written :=
  fun h => nomatch h

theorem append {first rest : Written} (hfirst : LaidOut first stock before between written)
    (hrest : LaidOut rest stock between behind written') :
    LaidOut (first ++ rest) stock before behind (written ++ written') := by
  intro h
  cases houtcome : first.outcome with
  | error error =>
    rw [append_of_error houtcome, houtcome] at h
    exact nomatch h
  | ok =>
    rw [append_of_ok houtcome] at h ⊢
    exact (hfirst houtcome).append (hrest h)

theorem deeper {lines : Written} (h : LaidOut lines stock before behind written) :
    LaidOut lines.deeper stock (before + 1) (behind + 1) written :=
  fun houtcome => (h houtcome).deeper

theorem withText {text : Except RenderError String} {write : String → Written}
    (h : ∀ content, text = .ok content → LaidOut (write content) stock before behind written) :
    LaidOut (.withText text write) stock before behind written := by
  cases text with
  | error => exact failure
  | ok content => exact h content rfl

theorem each {α : Type} {write : α → Written} {names : α → List String} {items : List α}
    (h : ∀ item ∈ items, LaidOut (write item) stock depth depth (names item)) :
    LaidOut (Written.each write items) stock depth depth (items.flatMap names) := by
  induction items with
  | nil => exact nothing
  | cons item rest ih =>
    rw [List.flatMap_cons]
    exact (h item List.mem_cons_self).append
      (ih fun other hother => h other (List.mem_cons_of_mem _ hother))

theorem each_nil {α : Type} {write : α → Written} {items : List α}
    (h : ∀ item ∈ items, LaidOut (write item) stock depth depth []) :
    LaidOut (Written.each write items) stock depth depth [] := by
  have hnone : items.flatMap (fun _ => ([] : List String)) = [] :=
    List.flatMap_eq_nil_iff.mpr fun _ _ => rfl
  rw [← hnone]
  exact each h

theorem code (h : Composed stock true content written) :
    LaidOut (.code content) stock 0 0 written :=
  fun _ => .plain h

theorem terminated (h : Composed stock true content written) :
    LaidOut (Outline.terminated content) stock 0 0 written :=
  code (h.before ";")

theorem opening (h : Composed stock true content written) :
    LaidOut (Outline.opening content) stock 0 1 written :=
  fun _ => .opening h

theorem ending {led : Bool} (h : Composed stock led content written) :
    LaidOut (.code ("\x7d" ++ content)) stock 1 0 written :=
  fun _ => .closing h

theorem closing : LaidOut Outline.closing stock 1 0 [] := ending .nothing

theorem turning {led : Bool} (h : Composed stock led content written) :
    LaidOut (Outline.opening ("\x7d" ++ content)) stock 1 1 written :=
  fun _ => .turning h

theorem brace : LaidOut (.code "\x7b") stock 0 1 [] := fun _ => .brace

/-- A body between a line that opens its brace and lines that close it. -/
theorem body {first lines rest : Written} {written'' : List String}
    (hfirst : LaidOut first stock before 1 written) (hlines : LaidOut lines stock 0 0 written')
    (hrest : LaidOut rest stock 1 behind written'') :
    LaidOut (first ++ lines.deeper ++ rest) stock before behind
      (written ++ written' ++ written'') :=
  (hfirst.append hlines.deeper).append hrest

/-- A body that ends with its closing brace shows nothing behind its lines. -/
theorem closed {first lines : Written} (hfirst : LaidOut first stock before 1 written)
    (hlines : LaidOut lines stock 0 0 written') :
    LaidOut (first ++ lines.deeper ++ Outline.closing) stock before 0 (written ++ written') := by
  simpa only [List.append_nil] using hfirst.body hlines closing

end Written.LaidOut

/-! ## Names of statements -/

section

variable (registry : Registry)

/-- The names that a declaration of a variable shows. -/
def variableNames (name : String) (type : Option String) (value : Option Node) : List String :=
  typeNames registry type ++ [name] ++ valueNames? value

/-- The names that the start of a loop shows. -/
def startNames : Option Node → List String
  | none => []
  | some (.variableDecl _ name type _ value) => variableNames registry name type value
  | some (.exprStmt _ node) => node.valueNames
  | some node => node.valueNames

mutual

/-- The names that a statement shows, in order. -/
def Node.statementNames : Node → List String
  | .variableDecl _ name type _ value => variableNames registry name type value
  | .block _ body => statementNamesList body
  | .exprStmt _ node => node.valueNames
  | .ifStmt _ test consequent otherwise =>
    test.valueNames ++ consequent.statementNames ++ statementNames? otherwise
  | .whileStmt _ test body => test.valueNames ++ body.statementNames
  | .forStmt _ start test update body =>
    startNames registry start ++ valueNames? test ++ valueNames? update ++ body.statementNames
  | .returnStmt _ argument => valueNames? argument
  | node => node.valueNames

/-- The names that the statements of a list show. -/
def statementNamesList : List Node → List String
  | [] => []
  | node :: rest => node.statementNames ++ statementNamesList rest

/-- The names that a statement shows that may be absent. -/
def statementNames? : Option Node → List String
  | none => []
  | some node => node.statementNames

end

end

namespace Outline

open Render (typeText typedNameText paramsText)

variable (setup : Setup) {mentioned : List Mention}

/-! ## Statements -/

theorem composed_text (site : Site) {node : Node} {text : String} (hmem : node.mentions ⊆ mentioned)
    (h : Outline.text setup.naming site node = .ok text) :
    Composed (setup.stock mentioned) true text node.valueNames :=
  composed_expression (setup.shows_naming mentioned site) hmem h

theorem composed_text? {site : Site} {node? : Option Node} {text : String}
    (hmem : mentions? node? ⊆ mentioned) (h : text? setup.naming site node? = .ok text) :
    ∃ led, Composed (setup.stock mentioned) led text (valueNames? node?) := by
  cases node? with
  | none => cases h; exact ⟨false, .nothing⟩
  | some node => exact ⟨true, composed_text setup site hmem h⟩

theorem composed_variableText {site : Site} {name : String} {type : Option String}
    {isConstant : Bool} {value : Option Node} {text : String} (hname : .name name ∈ mentioned)
    (htype : ∀ text ∈ type, .type text ∈ mentioned)
    (hvalue : mentions? value ⊆ mentioned)
    (h : variableText setup setup.naming site name type isConstant value = .ok text) :
    Composed (setup.stock mentioned) true text (variableNames setup.registry name type value) := by
  have hhead : Composed (setup.stock mentioned) true
      ((if isConstant then "const " else "") ++ typeText setup type ++ " " ++ mangle name)
      (typeNames setup.registry type ++ [name]) := by
    have htyped := ((composed_typeText setup htype).before " ").append (.name (.mentioned hname))
    cases isConstant with
    | false => simpa using htyped
    | true => simpa [String.append_assoc] using htyped.after "const "
  cases value with
  | none =>
    cases h
    simpa [variableNames, valueNames?] using hhead
  | some node =>
    obtain ⟨value, htext, rfl⟩ := map_eq_ok_iff.mp h
    exact (hhead.before " = ").append (composed_text setup _ hvalue htext)

theorem composed_loopStart {site : Site} {start : Option Node} {text : String}
    (hmem : mentions? start ⊆ mentioned)
    (h : loopStart setup setup.naming site start = .ok text) :
    ∃ led, Composed (setup.stock mentioned) led text (startNames setup.registry start) := by
  cases start with
  | none => cases h; exact ⟨false, .nothing⟩
  | some node =>
    refine ⟨true, ?_⟩
    cases node with
    | variableDecl _ name type isConstant value =>
      simp only [mentions?, Node.mentions, List.cons_append, List.cons_subset,
        List.append_subset] at hmem
      exact composed_variableText setup hmem.1
        (by simpa [List.subset_def] using hmem.2.1) hmem.2.2 h
    | exprStmt _ expression => exact composed_text setup site hmem h
    | assign | binary | unary | call | member | index | slice | literal | identifier | array =>
      exact composed_text setup site hmem h
    | _ => cases h

theorem laidOut_expressionLine {site : Site} {node : Node} (hmem : node.mentions ⊆ mentioned) :
    (expressionLine setup.naming site node).LaidOut (setup.stock mentioned) 0 0 node.valueNames :=
  .withText fun _ htext => .terminated (composed_text setup site hmem htext)

mutual

theorem laidOut_statement (site : Site) (braced : Bool) {node : Node}
    (hmem : node.mentions ⊆ mentioned) :
    (statement setup setup.naming site braced node).LaidOut (setup.stock mentioned) 0 0
      (node.statementNames setup.registry) := by
  cases node with
  | variableDecl _ name type isConstant value =>
    simp only [Node.mentions, List.cons_append, List.cons_subset, List.append_subset] at hmem
    exact .withText fun _ htext => .terminated <|
      composed_variableText setup hmem.1 (by simpa [List.subset_def] using hmem.2.1) hmem.2.2 htext
  | block _ body =>
    have hbody := fun site => laidOut_statements site hmem
    rw [statement, Node.statementNames]
    split
    · exact .closed .brace (hbody site.enter)
    · exact hbody site
  | exprStmt _ expression => exact laidOut_expressionLine setup hmem
  | ifStmt _ test consequent otherwise =>
    simp only [Node.mentions, List.append_subset] at hmem
    have hconsequent := laidOut_statement site.enter false hmem.1.2
    have hotherwise := laidOut_alternate site hmem.2
    refine .withText fun test htext => ?_
    have htest := composed_text setup site hmem.1.1 htext
    have hhead := (htest.after "if (").before ")"
    exact .body (.opening hhead) hconsequent hotherwise
  | whileStmt _ test body =>
    simp only [Node.mentions, List.append_subset] at hmem
    have hbody := laidOut_statement site.enter false hmem.2
    refine .withText fun test htext => ?_
    have htest := composed_text setup site hmem.1 htext
    have hhead := (htest.after "while (").before ")"
    exact .closed (.opening hhead) hbody
  | forStmt _ start test update body =>
    simp only [Node.mentions, List.append_subset] at hmem
    have hbody := fun site => laidOut_statement site false hmem.2
    refine .withText fun startText hstartText => .withText fun testText htestText =>
      .withText fun updateText hupdateText => ?_
    obtain ⟨_, hstart⟩ := composed_loopStart setup hmem.1.1.1 hstartText
    obtain ⟨_, htest⟩ := composed_text? setup hmem.1.1.2 htestText
    obtain ⟨_, hupdate⟩ := composed_text? setup hmem.1.2 hupdateText
    have hloop := (((hstart.after "for (").before "; ").append htest).before "; "
    have hhead := (hloop.append hupdate).before ")"
    exact .closed (.opening hhead) (hbody _)
  | breakStmt | continueStmt => exact .code (.word _)
  | returnStmt _ argument =>
    cases argument with
    | none => exact .code (.word _)
    | some node =>
      have hmem : node.mentions ⊆ mentioned := hmem
      refine .withText fun value htext => ?_
      have hvalue := composed_text setup site hmem htext
      exact .terminated (hvalue.after "return ")
  | assign | binary | unary | call | member | index | slice | literal | identifier | array =>
    exact laidOut_expressionLine setup hmem
  | _ => exact .failure
termination_by structural node

theorem laidOut_statements (site : Site) {body : List Node} (hmem : mentionsList body ⊆ mentioned) :
    (statements setup setup.naming site body).LaidOut (setup.stock mentioned) 0 0
      (statementNamesList setup.registry body) := by
  cases body with
  | nil => exact .nothing
  | cons node rest =>
    simp only [mentionsList, List.append_subset] at hmem
    exact (laidOut_statement site true hmem.1).append (laidOut_statements (site.after node) hmem.2)
termination_by structural body

theorem laidOut_alternate (site : Site) {otherwise : Option Node}
    (hmem : mentions? otherwise ⊆ mentioned) :
    (alternate setup setup.naming site otherwise).LaidOut (setup.stock mentioned) 1 0
      (statementNames? setup.registry otherwise) := by
  cases otherwise with
  | none => exact .closing
  | some node =>
    cases node with
    | ifStmt _ test consequent otherwise =>
      simp only [mentions?, Node.mentions, List.append_subset] at hmem
      have hconsequent := laidOut_statement site.enter false hmem.1.2
      have hotherwise := laidOut_alternate site hmem.2
      refine .withText fun test htext => ?_
      have htest := composed_text setup site hmem.1.1 htext
      have hhead := ((Composed.connective " else if (").append htest).before ")"
      have hbrace : "\x7d else if (" ++ test ++ ")" = "\x7d" ++ (" else if (" ++ test ++ ")") := by
        rw [← String.append_assoc, ← String.append_assoc]
        rfl
      rw [hbrace]
      exact .body (.turning hhead) hconsequent hotherwise
    | _ =>
      have hnode := laidOut_statement site.enter false hmem
      have hhead : Composed (setup.stock mentioned) false " else" [] := .connective _
      have hbranch := Written.LaidOut.closed (.turning hhead) hnode
      exact hbranch
termination_by structural otherwise

end

end Outline

/-! ## Names of declarations -/

section

variable (setup : Setup)

/-- The names that a function shows. The comment in front of it, if there is one, shows its name. -/
def functionNames (name : String) (params : List TypedName) (returnType : Option String)
    (body : Node) : List String :=
  (if setup.options.docComments then [name] else []) ++
    (typeNames setup.registry (some (returnType.getD Render.defaultReturnType)) ++ [name] ++
      (params.filter Render.isWritten).flatMap (TypedName.names setup.registry) ++
      body.statementNames setup.registry)

/-- The names that a method shows. -/
def methodNames : Node → List String
  | .functionDecl _ name params returnType body => functionNames setup name params returnType body
  | _ => []

/-- The names that a node of the top level shows inside the namespace. -/
def declarationNames : Node → List String
  | .functionDecl _ name params returnType body => functionNames setup name params returnType body
  | .structDecl _ name fields methods =>
    [name] ++ (fields.flatMap (TypedName.names setup.registry) ++
      methods.flatMap (methodNames setup))
  | .variableDecl _ name type _ value => variableNames setup.registry name type value
  | _ => []

/-- The names that a node of the top level shows inside the entry point. -/
def runNames (node : Node) : List String :=
  if isDeclaration node || (setup.registry.hasEntryPoint && isEntryStatement node) then []
  else node.statementNames setup.registry

/-- The names that the whole text shows, in order. -/
def Setup.writtenNames (body : List Node) : List String :=
  body.flatMap (declarationNames setup) ++
    (body.flatMap (runNames setup) ++
      if setup.registry.hasEntryPoint then [entryPointName] else [])

end

namespace Outline

open Render (typeText typedNameText paramsText quotedHeader)

variable (setup : Setup) {mentioned : List Mention}

/-! ## Declarations -/

theorem laidOut_functionComment {name : String} (hname : .name name ∈ mentioned) :
    (functionComment setup name).LaidOut (setup.stock mentioned) 0 0
      (if setup.options.docComments then [name] else []) := by
  have hmangled : Composed (setup.stock mentioned) true (mangle name) [name] :=
    .name (.mentioned hname)
  rw [functionComment]
  split
  · have hopened := hmangled.after "/** @brief "
    exact .code (hopened.before " */")
  · exact .nothing

theorem composed_paramsText {params : List TypedName}
    (hmem : params.flatMap TypedName.mentions ⊆ mentioned) :
    ∃ led, Composed (setup.stock mentioned) led (paramsText setup params)
      ((params.filter Render.isWritten).flatMap (TypedName.names setup.registry)) := by
  refine Composed.commaSeparated (List.forall₂_map_left_iff.mpr (List.forall₂_same.mpr ?_))
  intro param hparam
  refine composed_typedNameText setup fun mention hmention => hmem ?_
  exact List.mem_flatMap_of_mem (List.mem_of_mem_filter hparam) hmention

theorem laidOut_functionDecl (site : Site) {loc : Location} {name : String}
    {params : List TypedName} {returnType : Option String} {body : Node}
    (hmem : (Node.functionDecl loc name params returnType body).mentions ⊆ mentioned) :
    (functionDecl setup setup.naming site name params returnType body).LaidOut
      (setup.stock mentioned) 0 0 (functionNames setup name params returnType body) := by
  simp only [Node.mentions, List.cons_append, List.cons_subset, List.append_subset] at hmem
  obtain ⟨hname, hparams, hreturn, hbody⟩ := hmem
  have htype : Composed (setup.stock mentioned) true
      (typeText setup (some (returnType.getD Render.defaultReturnType))) _ :=
    composed_typeText setup (by simpa using hreturn)
  obtain ⟨_, hlist⟩ := composed_paramsText setup hparams
  have hhead := ((htype.before " ").append (.name (.mentioned hname))).append hlist.parenthesized
  have hlines := Written.LaidOut.closed (.opening hhead)
    (laidOut_statement setup (paramsSite site params).enter false hbody)
  exact (Written.LaidOut.append .blank (laidOut_functionComment setup hname)).append hlines

theorem laidOut_method (site : Site) {node : Node} (hmem : node.mentions ⊆ mentioned) :
    (method setup setup.naming site node).LaidOut (setup.stock mentioned) 0 0
      (methodNames setup node) := by
  cases node with
  | functionDecl _ name params returnType body => exact laidOut_functionDecl setup site hmem
  | _ => exact .failure

theorem laidOut_structDecl (site : Site) {loc : Location} {name : String} {fields : List TypedName}
    {methods : List Node} (hmem : (Node.structDecl loc name fields methods).mentions ⊆ mentioned) :
    (structDecl setup setup.naming site name fields methods).LaidOut (setup.stock mentioned) 0 0
      ([name] ++ (fields.flatMap (TypedName.names setup.registry) ++
        methods.flatMap (methodNames setup))) := by
  simp only [Node.mentions, List.cons_append, List.cons_subset, List.append_subset] at hmem
  obtain ⟨hname, hfields, hmethods⟩ := hmem
  have hmangled : Composed (setup.stock mentioned) true (mangle name) [name] :=
    .name (.mentioned hname)
  have hfieldLines : (Written.each (fun entry => terminated (typedNameText setup entry))
      fields).LaidOut (setup.stock mentioned) 0 0
      (fields.flatMap (TypedName.names setup.registry)) :=
    .each fun entry hentry => .terminated <| composed_typedNameText setup fun mention hmention =>
      hfields (List.mem_flatMap_of_mem hentry hmention)
  have hmethodLines : (Written.each (method setup setup.naming site) methods).LaidOut
      (setup.stock mentioned) 0 0 (methods.flatMap (methodNames setup)) :=
    .each fun _ hnode =>
      laidOut_method setup site (List.Subset.trans (mentions_subset_mentionsList hnode) hmethods)
  have hclosing : (Written.code "\x7d;").LaidOut (setup.stock mentioned) 1 0 [] :=
    .ending (.connective ";")
  have hhead := hmangled.after "struct "
  have hlines := Written.LaidOut.body (.append .blank (.opening hhead))
    (hfieldLines.append hmethodLines) hclosing
  simpa only [structDecl, List.nil_append, List.append_nil] using hlines

/-! ## The file -/

/-- The lines that include the headers. -/
def includes (body : List Node) : Written :=
  includeLine (quotedHeader SupportLibrary.header) ++
    Written.each includeLine SupportLibrary.standardHeaders ++
    Written.each (fun path => includeLine (quotedHeader (path ++ SupportLibrary.headerExtension)))
      (importedModules body) ++
    .blank

/-- The lines behind the banner. -/
def page (names : Site → Naming) (body : List Node) : Written :=
  includes body ++ namespacePart setup names body ++ entryPoint setup names body

theorem sourceFile_eq (names : Site → Naming) (body : List Node) :
    sourceFile setup names body = banner setup ++ page setup names body := by
  simp only [sourceFile, prologue, banner, page, includes, Written.append_assoc]

theorem importPath_mem_mentionsList {body : List Node} {path : String}
    (h : path ∈ importedModules body) : .importPath path ∈ mentionsList body := by
  induction body with
  | nil => cases h
  | cons node rest ih =>
    rw [mentionsList, List.mem_append]
    cases node with
    | importDecl _ first =>
      rcases List.mem_cons.mp h with rfl | hrest
      · exact .inl List.mem_cons_self
      · exact .inr (ih (List.mem_of_mem_filter hrest))
    | _ => exact .inr (ih h)

theorem laidOut_includes {body : List Node} (hmem : mentionsList body ⊆ mentioned) :
    (includes body).LaidOut (setup.stock mentioned) 0 0 [] := by
  have hline : ∀ {led header}, Composed (setup.stock mentioned) led header [] →
      (includeLine header).LaidOut (setup.stock mentioned) 0 0 [] := fun hheader =>
    .code (hheader.after "#include ")
  have hlibrary : (includeLine (quotedHeader SupportLibrary.header)).LaidOut
      (setup.stock mentioned) 0 0 [] :=
    hline (.connective "\"fax_runtime.hpp\"")
  have hstandard : (Written.each includeLine SupportLibrary.standardHeaders).LaidOut
      (setup.stock mentioned) 0 0 [] :=
    .each_nil fun header hheader => by
      obtain rfl := List.mem_singleton.mp hheader
      exact hline (.connective "<cmath>")
  have hmodules : (Written.each (fun path =>
      includeLine (quotedHeader (path ++ SupportLibrary.headerExtension)))
      (importedModules body)).LaidOut (setup.stock mentioned) 0 0 [] :=
    .each_nil fun path hpath => hline (.header (hmem (importPath_mem_mentionsList hpath)))
  exact ((hlibrary.append hstandard).append hmodules).append .blank

theorem laidOut_namespaceItem {node : Node} (hmem : node.mentions ⊆ mentioned) :
    (namespaceItem setup setup.naming node).LaidOut (setup.stock mentioned) 0 0
      (declarationNames setup node) := by
  cases node with
  | functionDecl => exact laidOut_functionDecl setup _ hmem
  | structDecl => exact laidOut_structDecl setup _ hmem
  | variableDecl => exact laidOut_statement setup namespaceSite true hmem
  | _ => exact .nothing

theorem laidOut_namespacePart {body : List Node} (hmem : mentionsList body ⊆ mentioned) :
    (namespacePart setup setup.naming body).LaidOut (setup.stock mentioned) 0 0
      (body.flatMap (declarationNames setup)) := by
  have hitems : (Written.each (namespaceItem setup setup.naming) body).LaidOut
      (setup.stock mentioned) 0 0 (body.flatMap (declarationNames setup)) :=
    .each fun _ hnode =>
      laidOut_namespaceItem setup (List.Subset.trans (mentions_subset_mentionsList hnode) hmem)
  have hspace : Composed (setup.stock mentioned) false setup.options.namespaceName [] :=
    .namespaceName
  have hhead := hspace.after "namespace "
  have hclosing : (Written.code ("\x7d // namespace " ++ setup.options.namespaceName)).LaidOut
      (setup.stock mentioned) 1 0 [] := by
    rw [show "\x7d // namespace " = "\x7d" ++ " // namespace " from rfl, String.append_assoc]
    exact .ending (.append (.connective _) hspace)
  have hlines := (Written.LaidOut.body (.opening hhead) hitems .blank).append
    (hclosing.append .blank)
  simpa only [namespacePart, Written.append_assoc, List.nil_append, List.append_nil] using hlines

theorem laidOut_entryItem {node : Node} (hmem : node.mentions ⊆ mentioned) :
    (entryItem setup setup.naming node).LaidOut (setup.stock mentioned) 0 0
      (runNames setup node) := by
  rw [entryItem, runNames]
  split
  · exact .nothing
  · exact laidOut_statement setup entrySite true hmem

theorem laidOut_entryCall :
    (entryCall setup).LaidOut (setup.stock mentioned) 0 0
      (if setup.registry.hasEntryPoint then [entryPointName] else []) := by
  rw [entryCall]
  split
  · have hcall : Composed (setup.stock mentioned) true
        (setup.options.namespaceName ++ "::" ++ mangle entryPointName) [entryPointName] :=
      .append .qualifier (.name .entryPoint)
    exact .terminated (hcall.before "()")
  · exact .nothing

theorem laidOut_entryPoint {body : List Node} (hmem : mentionsList body ⊆ mentioned) :
    (entryPoint setup setup.naming body).LaidOut (setup.stock mentioned) 0 0
      (body.flatMap (runNames setup) ++
        if setup.registry.hasEntryPoint then [entryPointName] else []) := by
  have hitems : (Written.each (entryItem setup setup.naming) body).LaidOut
      (setup.stock mentioned) 0 0 (body.flatMap (runNames setup)) :=
    .each fun _ hnode =>
      laidOut_entryItem setup (List.Subset.trans (mentions_subset_mentionsList hnode) hmem)
  have hword : ∀ {word}, word ∈ leadingWords →
      (Written.code word).LaidOut (setup.stock mentioned) 0 0 [] := fun hword =>
    .code (.word _ hword)
  have hopening : ∀ {word}, word ∈ leadingWords →
      (opening word).LaidOut (setup.stock mentioned) 0 1 [] := fun hword =>
    .opening (.word _ hword)
  have hrun := (hitems.append (laidOut_entryCall setup)).append
    (hword (by simp [leadingWords] : "return 0;" ∈ leadingWords))
  have hcatch : catchBody.LaidOut (setup.stock mentioned) 0 0 [] :=
    .append (hword (by simp [leadingWords, fatalPrefix])) (hword (by simp [leadingWords]))
  have hturning : (opening "\x7d catch (const std::exception& e)").LaidOut
      (setup.stock mentioned) 1 1 [] :=
    .turning (.connective " catch (const std::exception& e)")
  have htry := Written.LaidOut.body (hopening (by simp [leadingWords] : "try" ∈ leadingWords)) hrun
    (hturning.closed hcatch)
  have hmain : "int main(int argc, char* argv[])" ∈ leadingWords := by simp [leadingWords]
  have hlines := Written.LaidOut.closed (hopening hmain) htry
  simpa only [entryPoint, Written.append_assoc, List.nil_append, List.append_nil] using hlines

/-- Behind the banner, all lines of a program are laid out, and the names that they show are
known. -/
theorem laidOut_page {body : List Node} (hmem : mentionsList body ⊆ mentioned) :
    (page setup setup.naming body).LaidOut (setup.stock mentioned) 0 0 (setup.writtenNames body) :=
  ((laidOut_includes setup hmem).append (laidOut_namespacePart setup hmem)).append
    (laidOut_entryPoint setup hmem)

end Outline

/-- Behind the banner, the text of a program consists of lines that are laid out. -/
theorem renderProgram_laidOut {options : Options} {body : List Node} {text : String}
    (h : renderProgram options body = .ok text) :
    ∃ lines, Laid (Setup.stock ⟨options, Registry.ofTopLevel body⟩ (mentionsList body)) 0 lines 0
        (Setup.writtenNames ⟨options, Registry.ofTopLevel body⟩ body) ∧
      text = Assembly.banner options ++
        String.join (lines.map (Line.text options.indentWidth 0)) := by
  rw [renderProgram_eq_text, Outline.sourceFile_eq, Written.text_eq_ok_iff,
    Written.gives_append] at h
  obtain ⟨front, hbanner, behind, ⟨houtcome, rfl⟩, rfl⟩ := h
  obtain rfl := (Outline.gives_banner ⟨options, _⟩).mp hbanner
  exact ⟨_, Outline.laidOut_page _ (List.Subset.refl _) houtcome, rfl⟩

end TreeToCpp
