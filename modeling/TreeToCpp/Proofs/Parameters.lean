import TreeToCpp.Proofs.Escaping

/-!
# Parameters and their declarations

The parameters of a function are gone through twice. One time all of them are declared, so that the
body of the function knows them; the other time those that stand for the receiver are left out, and
the rest is written between the parentheses of the signature. A name that the body takes for a
parameter had better be in the signature, since nothing else in C++ declares it.

The two lists differ in the receiver, which has a text of its own and needs no declaration, and in
parameters of another name that have the type of the receiver. These are known to the body and are
written nowhere.

Which names a body knows is asked at the sites of the body. They are closed under what statements
do to a site, and `Outline.statement_congr` shows that the text of the body depends on how names are
written there, and on no other site.

## Main definitions

* `parameterFrame`, `signatureNames` — the names that are declared, and those that are written
* `insideFunction` — the draft in which the body of a function is written
* `bodySite` — the sites of a body
* `ParametersFit` — how the two lists of names fit together

## Main results

* `mem_parameterFrame_iff` — the names that are known without being written
* `Outline.statement_congr` — the sites that a statement is written at
* `Render.exec_functionDecl` — the run of a function, around its body
* `functionDecl_parametersFit` — every function, from every draft
-/

namespace TreeToCpp

open Render (isWritten typeText paramsText defaultReturnType)

/-! ## The two lists of names -/

/-- The names that are declared for the parameters of a function, the last one in front. -/
def parameterFrame (params : List TypedName) : List String :=
  (params.map fun param => mangle param.name).reverse

/-- The names that are written between the parentheses of a signature. -/
def signatureNames (params : List TypedName) : List String :=
  (params.filter isWritten).map fun param => mangle param.name

/-- The signature of a function. -/
def signatureText (setup : Setup) (name : String) (params : List TypedName)
    (returnType : Option String) : String :=
  typeText setup (some (returnType.getD defaultReturnType)) ++ " " ++ mangle name ++
    parenthesized (paramsText setup params)

theorem mem_parameterFrame {params : List TypedName} {mangled : String} :
    mangled ∈ parameterFrame params ↔ ∃ param ∈ params, mangle param.name = mangled := by
  simp [parameterFrame]

theorem mem_signatureNames {params : List TypedName} {mangled : String} :
    mangled ∈ signatureNames params ↔ ∃ param ∈ params,
      param.type ≠ receiverName ∧ param.name ≠ receiverName ∧ mangle param.name = mangled := by
  simp [signatureNames, isWritten, and_assoc]

/-- Apart from the receiver, a name is known without being written only if the type of a parameter
with that name says that it is the receiver. -/
theorem mem_parameterFrame_iff {params : List TypedName} {mangled : String}
    (h : mangled ≠ receiverName) :
    mangled ∈ parameterFrame params ↔ mangled ∈ signatureNames params ∨
      ∃ param ∈ params, param.type = receiverName ∧ mangle param.name = mangled := by
  rw [mem_parameterFrame, mem_signatureNames]
  constructor
  · rintro ⟨param, hparam, hname⟩
    by_cases htype : param.type = receiverName
    · exact .inr ⟨param, hparam, htype, hname⟩
    · refine .inl ⟨param, hparam, htype, fun hself => h ?_, hname⟩
      rw [← hname, hself]
      exact mangle_eq_receiverName_iff.mpr rfl
  · rintro (⟨param, hparam, -, -, hname⟩ | ⟨param, hparam, -, hname⟩)
    · exact ⟨param, hparam, hname⟩
    · exact ⟨param, hparam, hname⟩

/-- Between the parentheses stand the written names, each with a type in front. -/
theorem exists_signatureText_eq (setup : Setup) (name : String) (params : List TypedName)
    (returnType : Option String) : ∃ types : List String,
      types.length = (signatureNames params).length ∧
      signatureText setup name params returnType =
        typeText setup (some (returnType.getD defaultReturnType)) ++ " " ++ mangle name ++
          parenthesized (commaSeparated (List.zipWith (fun type name => type ++ " " ++ name) types
            (signatureNames params))) := by
  refine ⟨(params.filter isWritten).map fun param => typeText setup (some param.type), ?_, ?_⟩
  · simp [signatureNames]
  · rw [signatureNames, List.zipWith_map, List.zipWith_self]
    rfl

/-! ## The sites of a body -/

/-- Sites that are never left inside a statement. -/
structure Site.IsClosed (sites : Site → Prop) : Prop where
  enter : ∀ {site}, sites site → sites site.enter
  declare : ∀ {site} name, sites site → sites (site.declare name)

namespace Site.IsClosed

variable {sites : Site → Prop} {site : Site}

theorem after (h : IsClosed sites) (hsite : sites site) (node : Node) : sites (site.after node) := by
  cases node with
  | variableDecl _ name => exact h.declare name hsite
  | _ => exact hsite

theorem afterStart (h : IsClosed sites) (hsite : sites site) (start : Option Node) :
    sites (site.afterStart start) := by
  cases start with
  | none => exact hsite
  | some node => exact h.after hsite node

end Site.IsClosed

namespace Outline

variable (setup : Setup) {names names' : Site → Naming} {sites : Site → Prop}

section Agreement

variable (hclosed : Site.IsClosed sites) (h : ∀ site, sites site → names site = names' site)

include h in
theorem text_congr {site : Site} (hsite : sites site) (node : Node) :
    text names site node = text names' site node := by
  rw [text, text, h site hsite]

include h in
theorem text?_congr {site : Site} (hsite : sites site) (node? : Option Node) :
    text? names site node? = text? names' site node? := by
  cases node? with
  | none => rfl
  | some node => exact text_congr h hsite node

include hclosed h

theorem variableText_congr {site : Site} (hsite : sites site) (name : String)
    (type : Option String) (isConstant : Bool) (value : Option Node) :
    variableText setup names site name type isConstant value =
      variableText setup names' site name type isConstant value := by
  cases value with
  | none => rfl
  | some node => rw [variableText, variableText, text_congr h (hclosed.declare name hsite)]

theorem loopStart_congr {site : Site} (hsite : sites site) (start : Option Node) :
    loopStart setup names site start = loopStart setup names' site start := by
  cases start with
  | none => rfl
  | some node =>
    have hnode := text_congr h hsite node
    cases node with
    | variableDecl _ name type isConstant value =>
      exact variableText_congr setup hclosed h hsite name type isConstant value
    | exprStmt _ expression => exact text_congr h hsite expression
    | assign | binary | unary | call | member | index | slice | literal | identifier | array =>
      exact hnode
    | _ => rfl

omit hclosed in
theorem expressionLine_congr {site : Site} (hsite : sites site) (node : Node) :
    expressionLine names site node = expressionLine names' site node := by
  rw [expressionLine, expressionLine, text_congr h hsite]

end Agreement

mutual

/-- How names are written matters at the sites of a statement only. -/
theorem statement_congr (hclosed : Site.IsClosed sites)
    (h : ∀ site, sites site → names site = names' site) {site : Site} (hsite : sites site)
    (braced : Bool) (node : Node) :
    statement setup names site braced node = statement setup names' site braced node := by
  have hinside := hclosed.enter hsite
  cases node with
  | variableDecl _ name type isConstant value =>
    rw [statement, statement, variableText_congr setup hclosed h hsite]
  | block _ body =>
    rw [statement, statement, statements_congr hclosed h hinside body,
      statements_congr hclosed h hsite body]
  | exprStmt _ expression =>
    rw [statement, statement, expressionLine_congr h hsite]
  | ifStmt _ test consequent otherwise =>
    rw [statement, statement, text_congr h hsite, statement_congr hclosed h hinside false consequent,
      alternate_congr hclosed h hsite otherwise]
  | whileStmt _ test body =>
    rw [statement, statement, text_congr h hsite, statement_congr hclosed h hinside false body]
  | forStmt _ start test update body =>
    have hloop := hclosed.afterStart hinside start
    rw [statement, statement, loopStart_congr setup hclosed h hinside, text?_congr h hloop test,
      text?_congr h hloop update, statement_congr hclosed h (hclosed.enter hloop) false body]
  | returnStmt _ argument =>
    cases argument with
    | none => rfl
    | some value => rw [statement, statement, text_congr h hsite]
  | assign | binary | unary | call | member | index | slice | literal | identifier | array =>
    exact expressionLine_congr h hsite _
  | _ => rfl
termination_by structural node

theorem statements_congr (hclosed : Site.IsClosed sites)
    (h : ∀ site, sites site → names site = names' site) {site : Site} (hsite : sites site)
    (body : List Node) : statements setup names site body = statements setup names' site body := by
  cases body with
  | nil => rfl
  | cons node rest =>
    rw [statements, statements, statement_congr hclosed h hsite true node,
      statements_congr hclosed h (hclosed.after hsite node) rest]
termination_by structural body

theorem alternate_congr (hclosed : Site.IsClosed sites)
    (h : ∀ site, sites site → names site = names' site) {site : Site} (hsite : sites site)
    (otherwise : Option Node) :
    alternate setup names site otherwise = alternate setup names' site otherwise := by
  have hinside := hclosed.enter hsite
  cases otherwise with
  | none => rfl
  | some node =>
    have hnode := statement_congr hclosed h hinside false node
    cases node with
    | ifStmt _ test consequent otherwise =>
      rw [alternate, alternate, text_congr h hsite,
        statement_congr hclosed h hinside false consequent, alternate_congr hclosed h hsite otherwise]
    | _ => exact congrArg (fun lines => opening "\x7d else" ++ lines.deeper ++ closing) hnode
termination_by structural otherwise

end

end Outline

/-! ## The run of a function -/

/-- The lines in front of the body of a function. -/
def introduction (setup : Setup) (name : String) (params : List TypedName)
    (returnType : Option String) : List Line :=
  .blank :: ((Outline.functionComment setup name).lines ++
    [.code 0 (signatureText setup name params returnType ++ " \x7b")])

/-- The draft in which the body of a function is written. -/
def insideFunction (setup : Setup) (name : String) (params : List TypedName)
    (returnType : Option String) (draft : Draft) : Draft :=
  { draft.wrote (introduction setup name params returnType) with
    region := .function
    scopes := { frames := parameterFrame params :: draft.scopes.frames } }

/-- What is left to do behind the body of a function. The brace is written only if the body was. -/
def leaveFunction (draft : Draft) :
    Except RenderError Unit × Draft → Except RenderError Unit × Draft
  | (.ok _, behind) =>
    (.ok (), { behind.wrote [.code 0 "\x7d"] with
      region := draft.region
      scopes := draft.scopes })
  | (.error error, behind) =>
    (.error error, { behind with region := draft.region, scopes := draft.scopes })

/-- The sites of a body, by the names that are declared there so far. -/
def bodySite (draft : Draft) (params : List TypedName) (inner : List String) : Site where
  region := .function
  locals := some (inner ++ (parameterFrame params ++ draft.scopes.frames.flatten))

theorem isClosed_bodySite (draft : Draft) (params : List TypedName) :
    Site.IsClosed fun site => ∃ inner, site = bodySite draft params inner where
  enter := by
    rintro _ ⟨inner, rfl⟩
    exact ⟨inner, rfl⟩
  declare := by
    rintro _ name ⟨inner, rfl⟩
    exact ⟨mangle name :: inner, rfl⟩

theorem site_insideFunction (setup : Setup) (name : String) (params : List TypedName)
    (returnType : Option String) (draft : Draft) :
    (insideFunction setup name params returnType draft).site = bodySite draft params [] := rfl

theorem paramsSite_eq_bodySite (draft : Draft) (params : List TypedName) :
    Outline.paramsSite draft.site params = bodySite draft params [] := by
  have hparams : ∀ (frame : List String) (region : Region),
      params.foldl (fun (site : Site) param => site.declare param.name)
          { region := region, locals := some frame } =
        { region := region, locals := some (parameterFrame params ++ frame) } := by
    rw [parameterFrame]
    induction params with
    | nil => exact fun _ _ => rfl
    | cons param rest ih =>
      intro frame region
      rw [List.foldl_cons]
      exact (ih (mangle param.name :: frame) region).trans (by simp)
  have hlocals : draft.site.locals.getD [] = draft.scopes.frames.flatten := by
    obtain ⟨layout, ⟨frames⟩, region⟩ := draft
    cases frames <;> rfl
  rw [Outline.paramsSite, Site.enter, hlocals]
  exact hparams _ _

namespace Render

/-- The body of a function is written with the parameters declared; the scope and the region that
this takes are gone behind it, whether or not the body could be written. -/
theorem exec_functionDecl (setup : Setup) (name : String) (params : List TypedName)
    (returnType : Option String) (body : Node) (draft : Draft) :
    exec (functionDecl setup name params returnType body) draft =
      leaveFunction draft (exec (nested (statement setup false body))
        (insideFunction setup name params returnType draft)) := by
  have hfront : Written.blank ++ Outline.functionComment setup name ++
      Outline.opening (signatureText setup name params returnType) =
        { lines := introduction setup name params returnType, outcome := .ok () } := by
    rw [introduction, Outline.functionComment]
    split <;> rfl
  have hfunction := keeps_functionDecl setup name params returnType body draft
  rw [Outline.functionDecl, Outline.functionBody, ← signatureText, Written.append_assoc,
    Written.append_assoc, ← Written.append_assoc, ← Written.append_assoc, hfront,
    Written.append_of_ok rfl, Keeps, Runs, paramsSite_eq_bodySite] at hfunction
  have hbody := (settles_body setup body).nested
    (insideFunction setup name params returnType draft)
  rw [Keeps, Runs, site_insideFunction] at hbody
  rw [hfunction, hbody]
  -- Both sides are known line by line; what matters is whether a failure cuts off the brace.
  cases h : (Outline.statement setup setup.naming (bodySite draft params []).enter false
    body).deeper.outcome with
  | ok =>
    simp only [Written.append_of_ok h, Draft.wrote_append]
    rfl
  | error error =>
    simp only [Written.append_of_error h, h, Draft.wrote_append]
    rfl

end Render

/-! ## Every function -/

/-- The names that the body of a function takes for parameters fit to its signature. -/
structure ParametersFit (setup : Setup) (name : String) (params : List TypedName)
    (returnType : Option String) (body : Node) (draft : Draft) : Prop where
  /-- Functions of the top level and methods are written in the same way. -/
  function : ∀ loc,
    Render.namespaceItem setup (.functionDecl loc name params returnType body) =
        Render.functionDecl setup name params returnType body ∧
      Render.method setup (.functionDecl loc name params returnType body) =
        Render.functionDecl setup name params returnType body
  /-- Behind the signature, the body is written in a scope of the parameters. -/
  run : Render.exec (Render.functionDecl setup name params returnType body) draft =
    leaveFunction draft (Render.exec (Render.nested (Render.statement setup false body))
      (insideFunction setup name params returnType draft))
  /-- The scope has the names of all parameters. -/
  scope : ∀ mangled, mangled ∈ parameterFrame params ↔ ∃ param ∈ params, mangle param.name = mangled
  /-- The signature has the names of those that are not the receiver, each with its type. -/
  signature : ∃ types : List String, types.length = (signatureNames params).length ∧
    signatureText setup name params returnType =
      typeText setup (some (returnType.getD defaultReturnType)) ++ " " ++ mangle name ++
        parenthesized (commaSeparated (List.zipWith (fun type name => type ++ " " ++ name) types
          (signatureNames params)))
  /-- Apart from the receiver, both have the same names, but for parameters of its type. -/
  names : ∀ mangled, mangled ≠ receiverName →
    (mangled ∈ parameterFrame params ↔ mangled ∈ signatureNames params ∨
      ∃ param ∈ params, param.type = receiverName ∧ mangle param.name = mangled)
  /-- Whatever writes names as the program does at the sites of the body, writes the same body. -/
  sites : ∀ names : Site → Naming,
    (∀ inner, names (bodySite draft params inner) = setup.naming (bodySite draft params inner)) →
    Render.Keeps (Render.nested (Render.statement setup false body))
      (insideFunction setup name params returnType draft)
      (Outline.statement setup names (bodySite draft params []) false body).deeper
  /-- At these sites, the name of a parameter is written bare. The signature declares it, unless a
  parameter of the type of the receiver has it. -/
  parameters : ∀ inner source, source ≠ receiverName → mangle source ∈ parameterFrame params →
    (setup.naming (bodySite draft params inner)).reference source = mangle source ∧
      (mangle source ∈ signatureNames params ∨
        ∃ param ∈ params, param.type = receiverName ∧ mangle param.name = mangle source)
  /-- A name that is declared neither by a parameter nor in the body is written as it would be
  without parameters. -/
  others : ∀ inner source, mangle source ∉ inner → mangle source ∉ parameterFrame params →
    (setup.naming (bodySite draft params inner)).reference source =
      (setup.naming (bodySite draft [] [])).reference source

theorem reference_bodySite (setup : Setup) (draft : Draft) (params : List TypedName)
    (inner : List String) {source : String} (hself : source ≠ receiverName)
    (h : mangle source ∈ parameterFrame params) :
    (setup.naming (bodySite draft params inner)).reference source = mangle source := by
  have hsees : (bodySite draft params inner).sees (mangle source) = true := by
    simp [bodySite, Site.sees, h]
  show lexicalReference _ _ _ source = _
  rw [lexicalReference, if_neg hself, if_neg (by rintro ⟨⟩), if_pos hsees]

theorem reference_bodySite_of_notMem (setup : Setup) (draft : Draft) (params : List TypedName)
    {inner : List String} {source : String} (hinner : mangle source ∉ inner)
    (h : mangle source ∉ parameterFrame params) :
    (setup.naming (bodySite draft params inner)).reference source =
      (setup.naming (bodySite draft [] [])).reference source := by
  have hsees : (bodySite draft params inner).sees (mangle source) =
      (bodySite draft [] []).sees (mangle source) := by
    have hnone : parameterFrame [] = [] := rfl
    simp [bodySite, Site.sees, hinner, h, hnone]
  show lexicalReference _ _ _ source = lexicalReference _ _ _ source
  rw [lexicalReference, lexicalReference, hsees]
  rfl

/-- **Parameters are declared.** From whatever draft a function is written, its body knows the names
of all its parameters, and its signature declares those of them that are not the receiver. So a name
that the body takes for a parameter is either the receiver, or it is declared by the signature, or
it is the name of a parameter whose type is that of the receiver. -/
theorem functionDecl_parametersFit (setup : Setup) (name : String) (params : List TypedName)
    (returnType : Option String) (body : Node) (draft : Draft) :
    ParametersFit setup name params returnType body draft where
  function _ := ⟨rfl, rfl⟩
  run := Render.exec_functionDecl setup name params returnType body draft
  scope _ := mem_parameterFrame
  signature := exists_signatureText_eq setup name params returnType
  names _ := mem_parameterFrame_iff
  sites names hnames := by
    have hbody := (Render.settles_body setup body).nested
      (insideFunction setup name params returnType draft)
    have hagree : ∀ site, (∃ inner, site = bodySite draft params inner) →
        setup.naming site = names site := by
      rintro _ ⟨inner, rfl⟩
      exact (hnames inner).symm
    rw [← Outline.statement_congr setup (isClosed_bodySite draft params) hagree ⟨[], rfl⟩]
    exact hbody
  parameters inner source hself h := by
    have hmangled : mangle source ≠ receiverName := mt mangle_eq_receiverName_iff.mp hself
    exact ⟨reference_bodySite setup draft params inner hself h,
      (mem_parameterFrame_iff hmangled).mp h⟩
  others _ _ := reference_bodySite_of_notMem setup draft params

/-- A parameter whose type says that it is the receiver, under a name of its own: the body knows it
and takes its name from a variable of the top level, but the signature does not declare it. -/
theorem parameter_of_receiver_type :
    let loc : Location := { path := "", position := none }
    let params : List TypedName := [{ name := "me", type := receiverName }]
    let setup : Setup :=
      { options := { docComments := false }
        registry := Registry.ofTopLevel [.variableDecl loc "me" none false none] }
    let function := Render.functionDecl setup "f" params none (.identifier loc "me")
    "me" ≠ receiverName ∧ "me" ∈ parameterFrame params ∧ "me" ∉ signatureNames params ∧
      (setup.naming Outline.entrySite).reference "me" = "fax_app::me" ∧
      (Render.exec function (Draft.start setup.options)).2.layout.text =
        "\nvoid f() \x7b\n    me;\n\x7d\n" := by
  decide +kernel

end TreeToCpp
