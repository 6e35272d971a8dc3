import TreeToCpp.Proofs.Acceptance

/-!
# What a part of the walk leaves behind

A statement or a declaration is written in the middle of a walk, with scopes open around it and some
lines already there. It may also be refused in the middle, at any depth of the tree. Whatever
happens, the walk around it has to find the draft in order: the depth and the region as they were,
every scope that was opened inside closed again, and nothing but whole lines added to the text.

The registry of the top-level names is not part of the draft, so there is nothing to put back.

## Main definitions

* `IsWholeLines` — text that ends where a line ends
* `Scopes.gain`, `Node.declared` — what the innermost scope may keep
* `Unwinds` — a draft is left in order

## Main results

* `Render.Runs.unwinds` — writing lines leaves the draft in order
* `Render.unwinds_at_every_failure` — statements, declarations and programs
-/

namespace TreeToCpp

/-! ## What may stay -/

/-- Nothing, or text with a line break at its end. -/
def IsWholeLines (text : String) : Prop :=
  text = "" ∨ ∃ front, text = front ++ "\n"

/-- The scopes with mangled names added to the innermost one. Where no scope is open there is
nothing to add them to. -/
def Scopes.gain (scopes : Scopes) (mangled : List String) : Scopes where
  frames :=
    match scopes.frames with
    | [] => []
    | frame :: outer => (mangled ++ frame) :: outer

/-- The mangled names that a statement leaves in the scope around it. -/
def Node.declared : Node → List String
  | .variableDecl _ name .. => [mangle name]
  | _ => []

/-- A run from a draft, whether it came to its end or failed, has put back all that it changed,
except for lines of text and for some mangled names in the innermost scope. -/
structure Unwinds (before : Draft) (mangled : List String)
    (run : Except RenderError Unit × Draft) : Prop where
  indentWidth : run.2.layout.indentWidth = before.layout.indentWidth
  depth : run.2.layout.depth = before.layout.depth
  region : run.2.region = before.region
  scopes : run.2.scopes = before.scopes.gain mangled
  text : ∃ added, run.2.layout.text = before.layout.text ++ added ∧ IsWholeLines added
  /-- The walk itself makes no mistake about its scopes. -/
  outcome : run.1 ≠ .error .scopeUnderflow

/-! ## Lines are whole -/

theorem Line.text_eq (width level : Nat) (line : Line) :
    ∃ front, line.text width level = front ++ "\n" := by
  cases line with
  | blank => exact ⟨"", rfl⟩
  | code depth content => exact ⟨_, rfl⟩

theorem isWholeLines_join (width level : Nat) (lines : List Line) :
    IsWholeLines (String.join (lines.map (Line.text width level))) := by
  -- Only the last line matters, so the lines are taken apart from their end.
  rcases List.eq_nil_or_concat lines with rfl | ⟨earlier, last, rfl⟩
  · exact .inl rfl
  · obtain ⟨front, hlast⟩ := last.text_eq width level
    refine .inr ⟨String.join (earlier.map (Line.text width level)) ++ front, ?_⟩
    simp [hlast, String.append_assoc]

/-! ## Scopes -/

namespace Scopes

@[simp] theorem gain_nil (scopes : Scopes) : scopes.gain [] = scopes := by
  obtain ⟨frames⟩ := scopes
  cases frames <;> rfl

theorem declare_eq_gain (scopes : Scopes) (name : String) :
    scopes.declare name = scopes.gain [mangle name] := by
  obtain ⟨frames⟩ := scopes
  cases frames <;> rfl

end Scopes

theorem Render.scopesAfter_eq_gain (scopes : Scopes) (node : Node) :
    scopesAfter scopes node = scopes.gain node.declared := by
  cases node with
  | variableDecl _ name => exact scopes.declare_eq_gain name
  | _ => exact scopes.gain_nil.symm

/-! ## Runs -/

/-- The complaints about a program are complaints about its nodes. -/
theorem Judged.ne_scopeUnderflow {α : Type} {outcome : Except RenderError α} {valid : Prop}
    {stray : Node → Misplacement → Prop} (h : Judged outcome valid stray) :
    outcome ≠ .error .scopeUnderflow := by
  rintro rfl
  obtain ⟨node, place, -, herror⟩ := h
  cases herror

namespace Render

variable {step : Render Unit} {draft : Draft} {written : Written}

/-- Writing lines leaves the draft in order. -/
theorem Runs.unwinds {scopes : Scopes} {mangled : List String}
    (h : Runs step draft written scopes) (hscopes : scopes = draft.scopes.gain mangled)
    (houtcome : written.outcome ≠ .error .scopeUnderflow) :
    Unwinds draft mangled (exec step draft) := by
  rw [h]
  exact {
    indentWidth := rfl
    depth := rfl
    region := rfl
    scopes := hscopes
    text := ⟨_, rfl, isWholeLines_join _ _ _⟩
    outcome := houtcome }

theorem Keeps.unwinds (h : Keeps step draft written)
    (houtcome : written.outcome ≠ .error .scopeUnderflow) :
    Unwinds draft [] (exec step draft) :=
  Runs.unwinds h draft.scopes.gain_nil.symm houtcome

theorem unwinds_statement (setup : Setup) (node : Node) (draft : Draft) :
    Unwinds draft node.declared (exec (statement setup true node) draft) :=
  (runs_statement setup node draft).unwinds (scopesAfter_eq_gain _ _)
    (Outline.judged_statement setup setup.naming draft.site true node).ne_scopeUnderflow

theorem unwinds_functionDecl (setup : Setup) (name : String) (params : List TypedName)
    (returnType : Option String) (body : Node) (draft : Draft) :
    Unwinds draft [] (exec (functionDecl setup name params returnType body) draft) :=
  (keeps_functionDecl setup name params returnType body draft).unwinds
    (Outline.judged_functionDecl setup setup.naming draft.site name params returnType
      body).ne_scopeUnderflow

theorem unwinds_structDecl (setup : Setup) (name : String) (fields : List TypedName)
    (methods : List Node) (draft : Draft) :
    Unwinds draft [] (exec (structDecl setup name fields methods) draft) := by
  -- A structure is judged as a part of a program; one that holds nothing else will do.
  have hitem : Node.structDecl ⟨"", none⟩ name fields methods ∈
      [Node.structDecl ⟨"", none⟩ name fields methods] := List.mem_cons_self
  exact (keeps_structDecl setup name fields methods draft).unwinds
    (Outline.judged_structDecl setup setup.naming draft.site hitem).ne_scopeUnderflow

theorem unwinds_globalVariable (setup : Setup) (name : String) (type : Option String)
    (isConstant : Bool) (value : Option Node) (draft : Draft) :
    Unwinds draft [mangle name] (exec (globalVariable setup name type isConstant value) draft) := by
  have hvalue := Outline.judged_variableText setup setup.naming draft.site name type isConstant
    value
  have hline : Judged (Outline.globalVariable setup setup.naming draft.site name type isConstant
      value).outcome True _ := hvalue.withText fun _ _ => .ok trivial
  exact (runs_globalVariable setup name type isConstant value draft).unwinds
    (draft.scopes.declare_eq_gain name) hline.ne_scopeUnderflow

end Render

theorem renderProgram_ne_scopeUnderflow (options : Options) (body : List Node) :
    renderProgram options body ≠ .error .scopeUnderflow := by
  rw [renderProgram_eq_text]
  exact ((Outline.judged_sourceFile _ _ rfl).map _).ne_scopeUnderflow

/-- **Every part of the walk puts back what it changes, also when it fails.** From any draft, a
statement adds whole lines to the text and, if it is a declaration of a variable, its mangled name
to the innermost scope; so does a variable of the top level. A function or a structure adds nothing
but lines. Nothing else of the draft changes, and no failure is about the scopes. So no program
fails that way. -/
theorem Render.unwinds_at_every_failure (setup : Setup) (draft : Draft) :
    (∀ node, Unwinds draft node.declared (exec (statement setup true node) draft)) ∧
    (∀ name params returnType body,
      Unwinds draft [] (exec (functionDecl setup name params returnType body) draft)) ∧
    (∀ name fields methods, Unwinds draft [] (exec (structDecl setup name fields methods) draft)) ∧
    (∀ name type isConstant value, Unwinds draft [mangle name]
      (exec (globalVariable setup name type isConstant value) draft)) ∧
    ∀ options body, renderProgram options body ≠ .error .scopeUnderflow :=
  ⟨fun node => unwinds_statement setup node draft,
    fun name params returnType body => unwinds_functionDecl setup name params returnType body draft,
    fun name fields methods => unwinds_structDecl setup name fields methods draft,
    fun name type isConstant value =>
      unwinds_globalVariable setup name type isConstant value draft,
    renderProgram_ne_scopeUnderflow⟩

end TreeToCpp
