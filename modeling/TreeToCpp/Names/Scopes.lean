import TreeToCpp.Names.Registry

/-!
# Local scopes

The scopes that are open at some place of the program, innermost first, each with the mangled
names declared in it so far. A name is local if any open scope has it.

## Main definitions

* `Scopes` — the open scopes
* `Scopes.enter`, `Scopes.exit?`, `Scopes.declare` — one step of the walk through a program
* `Scopes.resolve` — what a name refers to
-/

namespace TreeToCpp

/-- What a name refers to. -/
inductive Resolution where
  /-- A name declared in an open scope. -/
  | localName
  /-- A name of the top level. -/
  | globalName
  /-- Neither; the name is taken to come from a library. -/
  | unqualified
  deriving DecidableEq, Repr

/-- The open scopes, innermost first. -/
structure Scopes where
  frames : List (List String)
  deriving DecidableEq, Repr

namespace Scopes

/-- No open scope. -/
def empty : Scopes := { frames := [] }

/-- The number of open scopes. -/
def depth (scopes : Scopes) : Nat :=
  scopes.frames.length

/-- Opens a scope. -/
def enter (scopes : Scopes) : Scopes :=
  { frames := [] :: scopes.frames }

/-- Closes the innermost scope, if one is open. -/
def exit? (scopes : Scopes) : Option Scopes :=
  match scopes.frames with
  | [] => none
  | _ :: outer => some { frames := outer }

/-- Declares a source name in the innermost scope. Where no scope is open nothing happens, since
the names of the top level are kept in the registry. -/
def declare (scopes : Scopes) (name : String) : Scopes :=
  match scopes.frames with
  | [] => scopes
  | frame :: outer => { frames := (mangle name :: frame) :: outer }

/-- Whether an open scope has the mangled name. -/
def contains (scopes : Scopes) (mangled : String) : Bool :=
  scopes.frames.any (·.contains mangled)

/-- What a source name refers to: scopes come before the top level. -/
def resolve (scopes : Scopes) (registry : Registry) (name : String) : Resolution :=
  if scopes.contains (mangle name) then .localName
  else if registry.contains (mangle name) then .globalName
  else .unqualified

@[simp] theorem contains_empty (mangled : String) : empty.contains mangled = false := rfl

@[simp] theorem contains_enter (scopes : Scopes) (mangled : String) :
    scopes.enter.contains mangled = scopes.contains mangled := by
  simp [enter, contains]

@[simp] theorem exit?_enter (scopes : Scopes) : scopes.enter.exit? = some scopes := rfl

@[simp] theorem depth_declare (scopes : Scopes) (name : String) :
    (scopes.declare name).depth = scopes.depth := by
  obtain ⟨frames⟩ := scopes
  cases frames <;> rfl

theorem contains_declare (scopes : Scopes) (name mangled : String) (h : scopes.frames ≠ []) :
    (scopes.declare name).contains mangled =
      (decide (mangled = mangle name) || scopes.contains mangled) := by
  obtain ⟨frames⟩ := scopes
  cases frames with
  | nil => exact absurd rfl h
  | cons frame outer => simp [declare, contains, Bool.or_assoc]

end Scopes

end TreeToCpp
