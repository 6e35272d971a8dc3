import Mathlib.Data.Finset.Card
import TreeToCpp.Names.Registry
import TreeToCpp.Proofs.Mangling

/-!
# The first meaning of a name

Names are entered into the registry one after the other, and different source names may meet under
one mangled form: a reserved word and its escaped spelling do. Whoever comes first decides what the
mangled name stands for, and whatever is entered later leaves that alone. So what the registry says
can be read off the sequence of names itself, without the registry.

The keys are escaped, which makes them words of their own: none is reserved, and escaping a key again
gives the key.

## Main definitions

* `IsFirstMeaning` — what the first of some names decides about a mangled name
* `Declares`, `DeclareInOrder` — what the nodes of the top level declare
* `Registry.Records` — the registry says what a sequence of names says

## Main results

* `Registry.kindOf_registerAll_eq_some_iff` — the first one decides
* `Registry.size_registerAll` — each mangled name counts once
* `Registry.records_first_meanings` — any sequence of names, and the top level of any program
-/

namespace TreeToCpp

/-! ## Sequences of names -/

/-- The first of the names that is written `mangled` stands for `kind`. -/
def IsFirstMeaning (names : List (String × SymbolKind)) (mangled : String) (kind : SymbolKind) :
    Prop :=
  ∃ earlier name later, names = earlier ++ (name, kind) :: later ∧ mangle name = mangled ∧
    ∀ other ∈ earlier, mangle other.1 ≠ mangled

theorem lookup_mangled_eq_some_iff {names : List (String × SymbolKind)} {mangled : String}
    {kind : SymbolKind} :
    (names.map fun (name, kind) => (mangle name, kind)).lookup mangled = some kind ↔
      IsFirstMeaning names mangled kind := by
  rw [List.lookup_eq_some_iff]
  constructor
  · rintro ⟨before, behind, hsplit, hbefore⟩
    obtain ⟨earlier, rest, rfl, rfl, hrest⟩ := List.map_eq_append_iff.mp hsplit
    obtain ⟨⟨name, found⟩, later, rfl, hname, -⟩ := List.map_eq_cons_iff.mp hrest
    obtain ⟨hmangled, rfl⟩ := Prod.mk.inj hname
    refine ⟨earlier, name, later, rfl, hmangled, fun other hother hsame => ?_⟩
    have hdiffers := hbefore _ (List.mem_map_of_mem hother)
    simp [hsame] at hdiffers
  · rintro ⟨earlier, name, later, rfl, rfl, hearlier⟩
    refine ⟨earlier.map fun (name, kind) => (mangle name, kind),
      later.map fun (name, kind) => (mangle name, kind), by simp, ?_⟩
    intro entry hentry
    obtain ⟨other, hother, rfl⟩ := List.mem_map.mp hentry
    simpa using (hearlier other hother).symm

/-! ## What the top level declares -/

/-- A node of the top level declares a name, and what the name stands for. -/
inductive Declares : Node → String → SymbolKind → Prop
  | function {loc name params returnType body} :
      Declares (.functionDecl loc name params returnType body) name .function
  | globalVariable {loc name type isConstant value} :
      Declares (.variableDecl loc name type isConstant value) name .globalVariable
  | record {loc name fields methods} :
      Declares (.structDecl loc name fields methods) name .record

/-- The names that the nodes of a list declare, in the order of the nodes. -/
inductive DeclareInOrder : List Node → List (String × SymbolKind) → Prop
  | nil : DeclareInOrder [] []
  | declares {node rest name kind names} :
      Declares node name kind → DeclareInOrder rest names →
      DeclareInOrder (node :: rest) ((name, kind) :: names)
  | other {node rest names} :
      (∀ name kind, ¬ Declares node name kind) → DeclareInOrder rest names →
      DeclareInOrder (node :: rest) names

theorem declaration?_eq_some_iff {node : Node} {name : String} {kind : SymbolKind} :
    Registry.declaration? node = some (name, kind) ↔ Declares node name kind := by
  constructor
  · intro h
    cases node <;> cases h <;> constructor
  · rintro (_ | _ | _) <;> rfl

theorem declareInOrder_filterMap (body : List Node) :
    DeclareInOrder body (body.filterMap Registry.declaration?) := by
  induction body with
  | nil => exact .nil
  | cons node rest ih =>
    cases hnode : Registry.declaration? node with
    | none =>
      rw [List.filterMap_cons_none hnode]
      refine .other (fun name kind hdeclares => ?_) ih
      rw [declaration?_eq_some_iff.mpr hdeclares] at hnode
      cases hnode
    | some entry =>
      rw [List.filterMap_cons_some hnode]
      exact .declares (declaration?_eq_some_iff.mp hnode) ih

/-! ## The registry -/

namespace Registry

variable {registry : Registry} {mangled : String}

theorem contains_eq_true_iff :
    registry.contains mangled = true ↔ ∃ kind, registry.kindOf mangled = some kind :=
  Option.isSome_iff_exists

theorem isRecord_eq_true_iff :
    registry.isRecord mangled = true ↔ registry.kindOf mangled = some .record := by
  rw [isRecord, beq_iff_eq]

/-- The first name that is written `mangled` decides. -/
theorem kindOf_registerAll_eq_some_iff {names : List (String × SymbolKind)} {kind : SymbolKind} :
    (empty.registerAll names).kindOf mangled = some kind ↔ IsFirstMeaning names mangled kind := by
  rw [kindOf_registerAll, kindOf_empty, Option.none_or, lookup_mangled_eq_some_iff]

theorem kindOf_registerAll_eq_none_iff {names : List (String × SymbolKind)} :
    (empty.registerAll names).kindOf mangled = none ↔ ∀ entry ∈ names, mangle entry.1 ≠ mangled := by
  rw [kindOf_registerAll, kindOf_empty, Option.none_or, List.lookup_eq_none_iff]
  simp only [List.forall_mem_map, bne_iff_ne]
  exact forall₂_congr fun _ _ => ne_comm

/-- A meaning that is there is not replaced. -/
theorem kindOf_registerAll_of_contains (h : registry.contains mangled = true)
    (more : List (String × SymbolKind)) :
    (registry.registerAll more).kindOf mangled = registry.kindOf mangled := by
  obtain ⟨kind, hkind⟩ := contains_eq_true_iff.mp h
  rw [kindOf_registerAll, hkind, Option.some_or]

/-! ### Keys -/

/-- The mangled names of a registry. -/
def keys (registry : Registry) : List String :=
  registry.entries.map fun entry => entry.1

theorem contains_eq_false_iff :
    registry.contains mangled = false ↔ registry.kindOf mangled = none := by
  rw [contains, Option.isSome_eq_false_iff, Option.isNone_iff_eq_none]

theorem mem_keys_iff : mangled ∈ registry.keys ↔ registry.contains mangled = true := by
  rw [← not_iff_not, Bool.not_eq_true, contains_eq_false_iff, kindOf, List.lookup_eq_none_iff]
  simp only [keys, List.mem_map, not_exists, not_and, bne_iff_ne]
  exact forall₂_congr fun _ _ => ne_comm

theorem nodup_keys_register (h : registry.keys.Nodup) (name : String) (kind : SymbolKind) :
    (registry.register name kind).keys.Nodup := by
  unfold register
  split
  · exact h
  · rename_i hfree
    exact List.nodup_cons.mpr ⟨fun hmem => hfree (mem_keys_iff.mp hmem), h⟩

theorem nodup_keys_registerAll (h : registry.keys.Nodup) (names : List (String × SymbolKind)) :
    (registry.registerAll names).keys.Nodup := by
  induction names generalizing registry with
  | nil => exact h
  | cons entry rest ih => exact ih (nodup_keys_register h entry.1 entry.2)

theorem mem_keys_registerAll_iff {names : List (String × SymbolKind)} :
    mangled ∈ (empty.registerAll names).keys ↔ ∃ entry ∈ names, mangle entry.1 = mangled := by
  rw [mem_keys_iff, ← not_iff_not, Bool.not_eq_true, contains_eq_false_iff,
    kindOf_registerAll_eq_none_iff]
  simp

/-- Each mangled name counts once. -/
theorem size_registerAll (names : List (String × SymbolKind)) :
    (empty.registerAll names).size = (names.map fun entry => mangle entry.1).toFinset.card := by
  have hempty : empty.keys.Nodup := List.nodup_nil
  have hnodup : (empty.registerAll names).keys.Nodup := nodup_keys_registerAll hempty names
  have hkeys : (empty.registerAll names).keys.toFinset =
      (names.map fun entry => mangle entry.1).toFinset := by
    ext mangled
    simp [mem_keys_registerAll_iff]
  rw [← hkeys, List.toFinset_card_of_nodup hnodup]
  exact List.length_map _ |>.symm

/-! ### What a registry records -/

/-- A registry says what a sequence of names says, and goes on saying it when more names come. -/
structure Records (registry : Registry) (names : List (String × SymbolKind)) : Prop where
  /-- The first name that is written like this decides what it stands for. -/
  kindOf : ∀ mangled kind,
    registry.kindOf mangled = some kind ↔ IsFirstMeaning names mangled kind
  /-- A mangled name that none of the names is written like stands for nothing. -/
  absent : ∀ mangled, registry.kindOf mangled = none ↔ ∀ entry ∈ names, mangle entry.1 ≠ mangled
  contains : ∀ mangled,
    registry.contains mangled = true ↔ ∃ kind, registry.kindOf mangled = some kind
  isRecord : ∀ mangled, registry.isRecord mangled = true ↔ registry.kindOf mangled = some .record
  /-- As many names as there are ways to write the names. -/
  size : registry.size = (names.map fun entry => mangle entry.1).toFinset.card
  /-- No key is a reserved word, and escaping it again leaves it alone. -/
  escaped : ∀ mangled ∈ registry.keys, mangle mangled = mangled ∧ isReserved mangled = false
  lasting : ∀ more mangled, registry.contains mangled = true →
    (registry.registerAll more).kindOf mangled = registry.kindOf mangled

theorem records_registerAll (names : List (String × SymbolKind)) :
    (empty.registerAll names).Records names where
  kindOf _ _ := kindOf_registerAll_eq_some_iff
  absent _ := kindOf_registerAll_eq_none_iff
  contains _ := contains_eq_true_iff
  isRecord _ := isRecord_eq_true_iff
  size := size_registerAll names
  escaped mangled hkey := by
    obtain ⟨entry, -, rfl⟩ := mem_keys_registerAll_iff.mp hkey
    exact ⟨mangle_mangle entry.1, isReserved_mangle entry.1⟩
  lasting more _ hcontains := kindOf_registerAll_of_contains hcontains more

/-- **The registry records the first meaning of every name.** This holds for every sequence of names
that are entered into an empty registry, and so for the functions, variables and structures of the
top level of every program, which are entered in their order. -/
theorem records_first_meanings :
    (∀ names, (empty.registerAll names).Records names) ∧
      ∀ body, ∃ names, DeclareInOrder body names ∧ (ofTopLevel body).Records names :=
  ⟨records_registerAll,
    fun body => ⟨_, declareInOrder_filterMap body, records_registerAll _⟩⟩

/-- A reserved word and its escaped spelling are one name. -/
example :
    let registry := empty.registerAll [("class", .record), ("class_", .function)]
    registry.kindOf "class_" = some .record ∧ registry.size = 1 := by decide

end Registry

end TreeToCpp
