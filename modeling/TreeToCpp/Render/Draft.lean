import TreeToCpp.Options
import TreeToCpp.Render.Expression

/-!
# The state of a walk through a program

While a program is written, three things change: the text, the open scopes and the region of the
text. `Draft` holds them. A step of the walk keeps the draft also when it fails, so what was opened
around it can be closed in every case; `indented`, `inScope` and `inRegion` do that.

## Main definitions

* `Draft` — text, scopes and region at one point of the walk
* `Render` — a step of the walk
* `indented`, `inScope`, `nested`, `inRegion` — steps that put back what they change
-/

namespace TreeToCpp

/-- What stays the same during a walk. -/
structure Setup where
  options : Options
  registry : Registry
  deriving DecidableEq, Repr

/-- What changes during a walk. -/
structure Draft where
  layout : Layout
  scopes : Scopes
  region : Region
  deriving DecidableEq, Repr

/-- The draft that a walk begins with. -/
def Draft.start (options : Options) : Draft :=
  { layout := Layout.empty options.indentWidth
    scopes := Scopes.empty
    region := .namespaceScope }

/-- What decides how a name is written at this point of the walk. -/
def Draft.visibility (draft : Draft) (setup : Setup) : Visibility :=
  { registry := setup.registry
    namespaceName := setup.options.namespaceName
    scopes := draft.scopes
    region := draft.region }

/-- A step of the walk. It changes the draft, and it gives a result or fails. -/
abbrev Render (α : Type) := ExceptT RenderError (StateM Draft) α

namespace Render

/-- Changes the layout. -/
def onLayout (change : Layout → Layout) : Render Unit :=
  modify fun draft => { draft with layout := change draft.layout }

/-- Writes one indented line. -/
def line (content : String) : Render Unit :=
  onLayout (·.line content)

/-- Writes an empty line. -/
def blankLine : Render Unit :=
  onLayout Layout.blankLine

/-- Declares a name in the innermost scope. -/
def declare (name : String) : Render Unit :=
  modify fun draft => { draft with scopes := draft.scopes.declare name }

/-- The text of an expression whose end the surrounding text marks. -/
def text (setup : Setup) (node : Node) : Render String := do
  let draft ← get
  ExceptT.mk (pure (expression (draft.visibility setup).naming .delimited node))

/-- The text of an expression that may be absent; then it is empty. -/
def text? (setup : Setup) : Option Node → Render String
  | some node => text setup node
  | none => pure ""

/-- A step with its lines one level deeper. -/
def indented {α : Type} (step : Render α) : Render α :=
  ExceptT.mk do
    modify fun draft => { draft with layout := draft.layout.indent }
    let result ← step.run
    modify fun draft => { draft with layout := draft.layout.dedent }
    return result

/-- Closes the innermost scope. -/
def closeScope : Render Unit := do
  match (← get).scopes.exit? with
  | some outer => modify fun draft => { draft with scopes := outer }
  | none => throw .scopeUnderflow

/-- A step in a scope of its own. If both the step and the closing of the scope fail, the failure
of the step counts. -/
def inScope {α : Type} (step : Render α) : Render α :=
  ExceptT.mk do
    modify fun draft => { draft with scopes := draft.scopes.enter }
    let result ← step.run
    let closed ← closeScope.run
    return result.bind fun value => closed.map fun _ => value

/-- A step one level deeper and in a scope of its own. -/
def nested {α : Type} (step : Render α) : Render α :=
  indented (inScope step)

/-- A step in another region of the text. -/
def inRegion {α : Type} (region : Region) (step : Render α) : Render α :=
  ExceptT.mk do
    let before ← get
    set { before with region := region }
    let result ← step.run
    modify fun draft => { draft with region := before.region }
    return result

end Render

end TreeToCpp
