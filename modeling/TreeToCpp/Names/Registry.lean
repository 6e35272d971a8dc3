import TreeToCpp.Identifier
import TreeToCpp.Tree.Node

/-!
# The names of the top level

Before anything is written, the functions, variables and structures of the top level are collected
under their mangled names. Two source names that are written alike share one entry, and the first
one that comes decides what it stands for.

## Main definitions

* `Registry` — what the top-level names stand for
* `Registry.register` — adds a name unless it is taken
* `Registry.ofTopLevel` — the names of a program
-/

namespace TreeToCpp

/-- What a top-level name stands for. -/
inductive SymbolKind where
  | function
  | globalVariable
  | record
  deriving DecidableEq, Repr

/-- What the top-level names stand for, by mangled name. No name has two entries as long as
entries are added by `register`. -/
structure Registry where
  entries : List (String × SymbolKind)
  deriving DecidableEq, Repr

namespace Registry

/-- The registry without names. -/
def empty : Registry := { entries := [] }

/-- What a mangled name stands for. -/
def kindOf (registry : Registry) (mangled : String) : Option SymbolKind :=
  registry.entries.lookup mangled

/-- Whether a mangled name is taken. -/
def contains (registry : Registry) (mangled : String) : Bool :=
  (registry.kindOf mangled).isSome

/-- Whether a mangled name stands for a structure. -/
def isRecord (registry : Registry) (mangled : String) : Bool :=
  registry.kindOf mangled == some .record

/-- The number of names. -/
def size (registry : Registry) : Nat :=
  registry.entries.length

/-- Whether there are no names. -/
def isEmpty (registry : Registry) : Bool :=
  registry.entries.isEmpty

/-- Adds a source name unless its mangled form is taken. -/
def register (registry : Registry) (name : String) (kind : SymbolKind) : Registry :=
  if registry.contains (mangle name) then registry
  else { entries := (mangle name, kind) :: registry.entries }

/-- What a node of the top level declares. -/
def declaration? : Node → Option (String × SymbolKind)
  | .functionDecl _ name .. => some (name, .function)
  | .variableDecl _ name .. => some (name, .globalVariable)
  | .structDecl _ name .. => some (name, .record)
  | _ => none

/-- The registry after names have been added in order. -/
def registerAll (registry : Registry) (names : List (String × SymbolKind)) : Registry :=
  names.foldl (fun registry (name, kind) => registry.register name kind) registry

/-- The names that the top level of a program declares. -/
def ofTopLevel (body : List Node) : Registry :=
  empty.registerAll (body.filterMap declaration?)

@[simp] theorem kindOf_empty (mangled : String) : empty.kindOf mangled = none := rfl

theorem kindOf_register (registry : Registry) (name : String) (kind : SymbolKind)
    (mangled : String) :
    (registry.register name kind).kindOf mangled =
      (registry.kindOf mangled).or (if mangled = mangle name then some kind else none) := by
  unfold register contains
  by_cases taken : (registry.kindOf (mangle name)).isSome = true
  · rw [if_pos taken]
    by_cases same : mangled = mangle name
    · subst same
      obtain ⟨found, h⟩ := Option.isSome_iff_exists.mp taken
      simp [h]
    · simp [same]
  · rw [if_neg taken]
    have free : registry.kindOf (mangle name) = none := by simpa using taken
    by_cases same : mangled = mangle name
    · subst same
      rw [free]
      simp [kindOf]
    · have differs : (mangled == mangle name) = false := by simpa using same
      simp [kindOf, List.lookup_cons, differs, same]

theorem kindOf_registerAll (registry : Registry) (names : List (String × SymbolKind))
    (mangled : String) :
    (registry.registerAll names).kindOf mangled =
      (registry.kindOf mangled).or
        ((names.map fun (name, kind) => (mangle name, kind)).lookup mangled) := by
  rw [registerAll]
  induction names generalizing registry with
  | nil => simp
  | cons entry rest ih =>
    obtain ⟨name, kind⟩ := entry
    rw [List.foldl_cons, ih, kindOf_register, Option.or_assoc]
    by_cases same : mangled = mangle name
    · simp [same]
    · have differs : (mangled == mangle name) = false := by simpa using same
      simp [same, List.lookup_cons, differs]

end Registry

end TreeToCpp
