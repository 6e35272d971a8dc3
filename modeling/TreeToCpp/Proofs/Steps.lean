import TreeToCpp.Proofs.Outline

/-!
# Steps of the walk

`Render` changes a draft as it goes, and a step keeps the draft also when it fails. This file says
what the steps do that all parts of the walk are made of: which lines they write, and what they
leave of the draft.

The scopes are the one part of a draft that a step may change for good. A declaration adds its name
to the innermost scope, and the statements of a list share that scope. So a step is described with
the scopes that it leaves behind, `Runs`, and `Keeps` is the case where they are the old ones. What
else a step changes, the depth of the lines and the region, it puts back.

## Main definitions

* `lexicalNaming` — how names are written at a site
* `Draft.site`, `Draft.wrote` — what the outline knows about a draft, and what it adds
* `Render.exec` — running a step
* `Render.Runs`, `Render.Keeps` — a step writes given lines

## Main results

* `Draft.naming_visibility` — the scopes decide about a name what the site says
* `Render.Runs.bind`, `Render.Keeps.bind`, `Render.runs_withText` — steps in a row
* `Render.Runs.nested`, `Render.Keeps.inRegion` — steps that put back what they change
-/

namespace TreeToCpp

/-! ## Names at a site -/

/-- How a name is written by the rules of lexical scoping. Nothing is said about where the visible
declarations come from; that is the business of whoever hands down the site. -/
def lexicalReference (namespaceName : String) (isGlobal : String → Bool) (site : Site)
    (name : String) : String :=
  if name = receiverName then receiverText
  else if site.region = .namespaceScope then mangle name
  else if site.sees (mangle name) then mangle name
  else if isGlobal (mangle name) then namespaceName ++ "::" ++ mangle name
  else mangle name

/-- How names are written by the rules of lexical scoping. -/
def lexicalNaming (namespaceName : String) (isGlobal : String → Bool) (site : Site) : Naming :=
  .ofReference (lexicalReference namespaceName isGlobal site)

/-- How the walk writes names at a site. -/
def Setup.naming (setup : Setup) : Site → Naming :=
  lexicalNaming setup.options.namespaceName setup.registry.contains

namespace Draft

/-- The site of the next text. -/
def site (draft : Draft) : Site where
  region := draft.region
  locals :=
    match draft.scopes.frames with
    | [] => none
    | frames => some frames.flatten

/-- The draft with lines added. -/
def wrote (draft : Draft) (lines : List Line) : Draft :=
  let texts := lines.map (Line.text draft.layout.indentWidth draft.layout.depth)
  { draft with layout := draft.layout.write (String.join texts) }

theorem sees_site (draft : Draft) (mangled : String) :
    draft.site.sees mangled = draft.scopes.contains mangled := by
  obtain ⟨layout, ⟨frames⟩, region⟩ := draft
  cases frames with
  | nil => rfl
  | cons frame outer =>
    simp [site, Site.sees, Scopes.contains, List.any_eq]

/-- The scopes decide about a name what its site says. -/
theorem naming_visibility (draft : Draft) (setup : Setup) :
    (draft.visibility setup).naming = setup.naming draft.site := by
  have reference : (draft.visibility setup).reference =
      lexicalReference setup.options.namespaceName setup.registry.contains draft.site := by
    funext name
    rw [Visibility.reference, lexicalReference, visibility, Scopes.resolve, sees_site]
    show _ = if name = receiverName then receiverText
      else if draft.region = .namespaceScope then _ else _
    by_cases hself : name = receiverName
    · simp [hself]
    · cases draft.region <;> cases draft.scopes.contains (mangle name) <;>
        cases setup.registry.contains (mangle name) <;> simp [hself, Region.qualifiesGlobals]
  exact congrArg Naming.ofReference reference

theorem site_enter (draft : Draft) :
    { draft with scopes := draft.scopes.enter }.site = draft.site.enter := by
  obtain ⟨layout, ⟨frames⟩, region⟩ := draft
  cases frames <;> rfl

theorem site_declare (draft : Draft) (name : String) :
    { draft with scopes := draft.scopes.declare name }.site = draft.site.declare name := by
  obtain ⟨layout, ⟨frames⟩, region⟩ := draft
  cases frames <;> rfl

@[simp] theorem site_wrote (draft : Draft) (lines : List Line) :
    (draft.wrote lines).site = draft.site := rfl

@[simp] theorem scopes_wrote (draft : Draft) (lines : List Line) :
    (draft.wrote lines).scopes = draft.scopes := rfl

@[simp] theorem wrote_nil (draft : Draft) : draft.wrote [] = draft := by
  simp [wrote, Layout.write]

theorem wrote_append (draft : Draft) (first rest : List Line) :
    draft.wrote (first ++ rest) = (draft.wrote first).wrote rest := by
  simp [wrote, Layout.write, String.append_assoc]

end Draft

/-! ## Running a step -/

namespace Render

variable {α β : Type}

/-- The result of a step and the draft behind it. -/
def exec (step : Render α) (draft : Draft) : Except RenderError α × Draft :=
  step.run draft

theorem exec_bind (step : Render α) (next : α → Render β) (draft : Draft) :
    exec (step >>= next) draft =
      match exec step draft with
      | (.ok a, behind) => exec (next a) behind
      | (.error error, behind) => (.error error, behind) := by
  show (ExceptT.bind step next).run draft = _
  simp only [ExceptT.bind, ExceptT.run, ExceptT.mk, exec, bind, StateT.bind]
  rcases step draft with ⟨_ | _, behind⟩ <;> rfl

theorem exec_text (setup : Setup) (node : Node) (draft : Draft) :
    exec (text setup node) draft = (Outline.text setup.naming draft.site node, draft) := by
  rw [Outline.text, ← draft.naming_visibility]
  rfl

theorem exec_text? (setup : Setup) (node? : Option Node) (draft : Draft) :
    exec (text? setup node?) draft = (Outline.text? setup.naming draft.site node?, draft) := by
  cases node? with
  | none => rfl
  | some node => exact exec_text setup node draft

theorem exec_indented (step : Render α) (draft : Draft) :
    exec (indented step) draft =
      ((exec step { draft with layout := draft.layout.indent }).1,
        { (exec step { draft with layout := draft.layout.indent }).2 with
          layout := (exec step { draft with layout := draft.layout.indent }).2.layout.dedent }) :=
  rfl

theorem exec_inRegion (region : Region) (step : Render α) (draft : Draft) :
    exec (inRegion region step) draft =
      ((exec step { draft with region := region }).1,
        { (exec step { draft with region := region }).2 with region := draft.region }) :=
  rfl

/-- A scope is closed behind a step if the step leaves one to close. -/
theorem exec_inScope {step : Render α} {draft behind : Draft} {outer : Scopes}
    {result : Except RenderError α}
    (h : exec step { draft with scopes := draft.scopes.enter } = (result, behind))
    (hexit : behind.scopes.exit? = some outer) :
    exec (inScope step) draft = (result, { behind with scopes := outer }) := by
  have hclosed : exec closeScope behind = (.ok (), { behind with scopes := outer }) := by
    obtain ⟨layout, ⟨frames⟩, region⟩ := behind
    cases frames with
    | nil => contradiction
    | cons frame rest =>
      obtain rfl : { frames := rest } = outer := Option.some.inj hexit
      rfl
  have hsteps : exec (inScope step) draft =
      ((exec step { draft with scopes := draft.scopes.enter }).1.bind fun value =>
          (exec closeScope (exec step { draft with scopes := draft.scopes.enter }).2).1.map
            fun _ => value,
        (exec closeScope (exec step { draft with scopes := draft.scopes.enter }).2).2) := rfl
  rw [hsteps, h, hclosed]
  cases result <;> rfl

/-- A step writes lines, comes to their outcome and leaves some scopes behind. -/
def Runs (step : Render Unit) (draft : Draft) (written : Written) (scopes : Scopes) : Prop :=
  exec step draft = (written.outcome, { draft.wrote written.lines with scopes := scopes })

/-- A step writes lines, comes to their outcome and changes nothing else. -/
def Keeps (step : Render Unit) (draft : Draft) (written : Written) : Prop :=
  Runs step draft written draft.scopes

variable {setup : Setup} {draft : Draft} {step : Render Unit} {written : Written}

theorem keeps_return : Keeps (pure ()) draft .nothing := by
  show exec (pure ()) draft = (.ok (), draft.wrote [])
  rw [Draft.wrote_nil]
  rfl

theorem keeps_throw {error : RenderError} : Keeps (throw error) draft (.failure error) := by
  show exec (throw error) draft = (.error error, draft.wrote [])
  rw [Draft.wrote_nil]
  rfl

theorem keeps_line (content : String) : Keeps (line content) draft (.code content) := by
  show (_, _) = (_, _)
  simp [Written.code, Draft.wrote, Layout.line, Layout.margin, Line.text, String.join]

theorem keeps_blankLine : Keeps blankLine draft .blank := by
  show (_, _) = (_, _)
  simp [Written.blank, Draft.wrote, Layout.blankLine, Line.text, String.join]

/-! ### Steps in a row -/

/-- The second of two steps runs in the draft that the first one leaves behind. If the first one
fails, its scopes stay. -/
theorem Runs.bind {first rest : Render Unit} {before behind : Written} {inner outer : Scopes}
    (hfirst : Runs first draft before inner)
    (hrest : Runs rest { draft.wrote before.lines with scopes := inner } behind outer) :
    ∃ scopes, (scopes = inner ∨ scopes = outer) ∧
      Runs (first >>= fun _ => rest) draft (before ++ behind) scopes := by
  simp only [Runs] at *
  rw [exec_bind, hfirst]
  cases h : before.outcome with
  | error error =>
    refine ⟨inner, .inl rfl, ?_⟩
    rw [Written.append_of_error h, h]
  | ok =>
    refine ⟨outer, .inr rfl, ?_⟩
    rw [Written.append_of_ok h, Draft.wrote_append]
    exact hrest

theorem Keeps.bind {first rest : Render Unit} {before behind : Written}
    (hfirst : Keeps first draft before) (hrest : Keeps rest (draft.wrote before.lines) behind) :
    Keeps (first >>= fun _ => rest) draft (before ++ behind) := by
  obtain ⟨scopes, hscopes, h⟩ := Runs.bind hfirst hrest
  rw [show scopes = draft.scopes from hscopes.elim id id] at h
  exact h

/-- A step that takes the text of an expression. If the expression cannot be written, nothing is. -/
theorem runs_withText {source : Render String} {text : Except RenderError String}
    {next : String → Render Unit} {write : String → Written} {scopes : Scopes}
    (hsource : exec source draft = (text, { draft with scopes := scopes }))
    (hnext : ∀ content,
      Runs (next content) { draft with scopes := scopes } (write content) scopes) :
    Runs (source >>= next) draft (.withText text write) scopes := by
  rw [Runs, exec_bind, hsource]
  cases text with
  | error error =>
    show _ = (Except.error error, { draft.wrote [] with scopes := scopes })
    rw [Draft.wrote_nil]
  | ok content => exact hnext content

theorem keeps_text {node : Node} {next : String → Render Unit} {write : String → Written}
    (hnext : ∀ content, Keeps (next content) draft (write content)) :
    Keeps (text setup node >>= next) draft
      (.withText (Outline.text setup.naming draft.site node) write) :=
  runs_withText (exec_text setup node draft) hnext

theorem keeps_text? {node? : Option Node} {next : String → Render Unit}
    {write : String → Written} (hnext : ∀ content, Keeps (next content) draft (write content)) :
    Keeps (text? setup node? >>= next) draft
      (.withText (Outline.text? setup.naming draft.site node?) write) :=
  runs_withText (exec_text? setup node? draft) hnext

theorem keeps_forM {α : Type} {step : α → Render Unit} {write : α → Written} {items : List α}
    (h : ∀ lines, ∀ item ∈ items, Keeps (step item) (draft.wrote lines) (write item)) :
    Keeps (items.forM step) draft (Written.each write items) := by
  induction items generalizing draft with
  | nil => exact keeps_return
  | cons item rest ih =>
    have hitem := h [] item (List.mem_cons_self ..)
    rw [Draft.wrote_nil] at hitem
    refine hitem.bind (ih fun lines item hrest => ?_)
    rw [← Draft.wrote_append]
    exact h _ item (List.mem_cons_of_mem _ hrest)

/-! ### Steps that put back what they change -/

/-- One level deeper, the same lines come out one level deeper. -/
theorem Runs.indented {scopes : Scopes}
    (h : Runs step { draft with layout := draft.layout.indent } written scopes) :
    Runs (Render.indented step) draft written.deeper scopes := by
  have hline : Line.text draft.layout.indentWidth (draft.layout.depth + 1) =
      Line.text draft.layout.indentWidth draft.layout.depth ∘ Line.deeper := by
    funext line
    cases line with
    | blank => rfl
    | code depth content =>
      simp only [Line.text, Line.deeper, Function.comp_apply]
      rw [show draft.layout.depth + 1 + depth = draft.layout.depth + (depth + 1) by omega]
  simp only [Runs] at *
  rw [exec_indented, h]
  simp [Draft.wrote, Layout.write, Layout.indent, Layout.dedent, Written.deeper, hline]

theorem Keeps.indented (h : Keeps step { draft with layout := draft.layout.indent } written) :
    Keeps (Render.indented step) draft written.deeper :=
  Runs.indented h

/-- A scope is closed behind a step that leaves it the innermost one. -/
theorem Runs.inScope {scopes : Scopes}
    (h : Runs step { draft with scopes := draft.scopes.enter } written scopes)
    (hexit : scopes.exit? = some draft.scopes) : Keeps (Render.inScope step) draft written := by
  rw [Keeps, Runs, exec_inScope h hexit]
  rfl

theorem Runs.nested {scopes : Scopes}
    (h : Runs step
      { draft with layout := draft.layout.indent, scopes := draft.scopes.enter } written scopes)
    (hexit : scopes.exit? = some draft.scopes) : Keeps (Render.nested step) draft written.deeper :=
  Runs.indented (Runs.inScope h hexit)

theorem Keeps.inRegion {region : Region}
    (h : Keeps step { draft with region := region } written) :
    Keeps (Render.inRegion region step) draft written := by
  simp only [Keeps, Runs] at *
  rw [exec_inRegion, h]
  rfl

end Render

end TreeToCpp
