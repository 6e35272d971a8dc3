import TreeToCpp.Proofs.Outcome
import TreeToCpp.Tree.Reading

/-!
# Reading field by field

The fields of a node are read one behind the other. Each step looks at what one key holds, and the
next one is done only if it succeeds. So what holds of every step, and still holds when one step
follows another, holds of the reading of the whole node, whatever its kind.

This file goes through the 23 kinds once and for all. It compares two readings, of two objects that
stand at the same path; a fact about a single reading is a relation that looks at one side only.

## Main definitions

* `IsStepwise` — a relation between readings that steps in a row keep
* `FieldsRelated` — the fields of two objects are read alike
* `stringKeys`, `childKeys` — the keys that hold texts and children

## Main results

* `IsStepwise.readFields` — then so are the nodes of every kind
-/

namespace TreeToCpp

open Json (Members)

/-- A relation between the outcomes of two readings. -/
abbrev OutcomeRelation := ∀ {α : Type}, Except TreeError α → Except TreeError α → Prop

/-- A relation between readings that steps in a row keep. -/
structure IsStepwise (related : OutcomeRelation) : Prop where
  ok : ∀ {α : Type} (a : α), related (.ok a) (.ok a)
  bind : ∀ {α β : Type} {x x' : Except TreeError α} {f f' : α → Except TreeError β},
    related x x' → (∀ a, related (f a) (f' a)) → related (x >>= f) (x' >>= f')

/-- The keys that hold a text which has to be there. -/
def stringKeys : List String :=
  ["name", "identifier", "path", "operator", "property"]

/-- The keys that hold children. -/
def childKeys : List String :=
  ["body", "initializer", "methods", "expression", "test", "consequent", "alternate", "init",
    "update", "argument", "left", "right", "callee", "arguments", "object", "index", "start",
    "end", "elements"]

/-- The fields of two objects at one path are read alike. -/
structure FieldsRelated (related : OutcomeRelation) (path : String) (members members' : Members) :
    Prop where
  string : ∀ key ∈ stringKeys,
    related (Record.string ⟨path, members⟩ key) (Record.string ⟨path, members'⟩ key)
  returnType : related (Record.firstString? ⟨path, members⟩ ["returnType", "return_type"])
    (Record.firstString? ⟨path, members'⟩ ["returnType", "return_type"])
  dataType : related (Record.firstString? ⟨path, members⟩ ["dataType", "data_type"])
    (Record.firstString? ⟨path, members'⟩ ["dataType", "data_type"])
  isConstant : related (Record.firstFlag? ⟨path, members⟩ ["isConstant", "is_constant"])
    (Record.firstFlag? ⟨path, members'⟩ ["isConstant", "is_constant"])
  params : related (Record.typedNames ⟨path, members⟩ "params" "type" ["param_type"])
    (Record.typedNames ⟨path, members'⟩ "params" "type" ["param_type"])
  fields : related (Record.typedNames ⟨path, members⟩ "fields" "type" ["field_type"])
    (Record.typedNames ⟨path, members'⟩ "fields" "type" ["field_type"])
  literal : related (Record.literal ⟨path, members⟩) (Record.literal ⟨path, members'⟩)
  child : ∀ key ∈ childKeys,
    related (Node.readChild path members key) (Node.readChild path members' key)
  child? : ∀ key ∈ childKeys,
    related (Node.readChild? path members key) (Node.readChild? path members' key)
  children : ∀ key ∈ childKeys,
    related (Node.readChildren path members key) (Node.readChildren path members' key)
  children? : ∀ key ∈ childKeys,
    related (Node.readChildren? path members key) (Node.readChildren? path members' key)

/-- If the fields of two objects are read alike, then so are the nodes. -/
theorem IsStepwise.readFields {related : OutcomeRelation} (step : IsStepwise related)
    {path : String} {members members' : Members} (h : FieldsRelated related path members members')
    (loc : Location) (kind : Kind) :
    related (Node.readFields path members loc kind) (Node.readFields path members' loc kind) := by
  cases kind <;> simp only [Node.readFields]
  case program | block =>
    exact step.bind (h.children "body" (by decide)) fun _ => step.ok _
  case functionDecl =>
    exact step.bind (h.string "name" (by decide)) fun _ => step.bind h.params fun _ =>
      step.bind h.returnType fun _ => step.bind (h.child "body" (by decide)) fun _ => step.ok _
  case variableDecl =>
    exact step.bind (h.string "identifier" (by decide)) fun _ => step.bind h.dataType fun _ =>
      step.bind h.isConstant fun _ => step.bind (h.child? "initializer" (by decide)) fun _ =>
        step.ok _
  case structDecl =>
    exact step.bind (h.string "name" (by decide)) fun _ => step.bind h.fields fun _ =>
      step.bind (h.children? "methods" (by decide)) fun _ => step.ok _
  case importDecl => exact step.bind (h.string "path" (by decide)) fun _ => step.ok _
  case exprStmt => exact step.bind (h.child "expression" (by decide)) fun _ => step.ok _
  case ifStmt =>
    exact step.bind (h.child "test" (by decide)) fun _ =>
      step.bind (h.child "consequent" (by decide)) fun _ =>
        step.bind (h.child? "alternate" (by decide)) fun _ => step.ok _
  case whileStmt =>
    exact step.bind (h.child "test" (by decide)) fun _ =>
      step.bind (h.child "body" (by decide)) fun _ => step.ok _
  case forStmt =>
    exact step.bind (h.child? "init" (by decide)) fun _ =>
      step.bind (h.child? "test" (by decide)) fun _ =>
        step.bind (h.child? "update" (by decide)) fun _ =>
          step.bind (h.child "body" (by decide)) fun _ => step.ok _
  case breakStmt | continueStmt => exact step.ok _
  case returnStmt => exact step.bind (h.child? "argument" (by decide)) fun _ => step.ok _
  case assign =>
    exact step.bind (h.child "left" (by decide)) fun _ =>
      step.bind (h.child "right" (by decide)) fun _ => step.ok _
  case binary =>
    exact step.bind (h.string "operator" (by decide)) fun _ =>
      step.bind (h.child "left" (by decide)) fun _ =>
        step.bind (h.child "right" (by decide)) fun _ => step.ok _
  case unary =>
    exact step.bind (h.string "operator" (by decide)) fun _ =>
      step.bind (h.child "argument" (by decide)) fun _ => step.ok _
  case call =>
    exact step.bind (h.child "callee" (by decide)) fun _ =>
      step.bind (h.children "arguments" (by decide)) fun _ => step.ok _
  case member =>
    exact step.bind (h.child "object" (by decide)) fun _ =>
      step.bind (h.string "property" (by decide)) fun _ => step.ok _
  case index =>
    exact step.bind (h.child "object" (by decide)) fun _ =>
      step.bind (h.child "index" (by decide)) fun _ => step.ok _
  case slice =>
    exact step.bind (h.child "object" (by decide)) fun _ =>
      step.bind (h.child? "start" (by decide)) fun _ =>
        step.bind (h.child? "end" (by decide)) fun _ => step.ok _
  case literal => exact step.bind h.literal fun _ => step.ok _
  case identifier => exact step.bind (h.string "name" (by decide)) fun _ => step.ok _
  case array => exact step.bind (h.children "elements" (by decide)) fun _ => step.ok _

end TreeToCpp
