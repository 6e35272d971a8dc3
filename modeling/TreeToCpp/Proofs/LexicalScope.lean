import TreeToCpp.Proofs.NamedParts
import TreeToCpp.Proofs.Walk

/-!
# Names follow lexical scoping

The walk decides how a name is written by a stack of scopes that it opens, fills and closes on its
way. The rule behind it needs no stack. A name is written bare if a declaration of it is visible
where it stands, and with the namespace of the program if the top level declares it; what is visible
at a place is given by where the place is in the tree.

The outline of a program says where every identifier stands, because it hands each of them the site
of its place. The lemmas on `Site.sees` read the sites: parameters are seen by the whole body of
their function, a variable by the statements behind it in its list, and a variable of a loop by the
loop. What remains is that the names of the top level are those that the registry has collected.

The outline writes an expression by the naming of its site. That this writes the identifiers of the
expression by the naming, those that are called as what is called and all others as references, is
`FollowsNaming`.

## Main definitions

* `LexicalScoping` — which declarations a place sees
* `FollowsNaming` — the names of an expression are written by a naming

## Main results

* `Site.sees_behind`, `Outline.sees_paramsSite`, `Site.sees_afterStart` — what is visible
* `Registry.contains_ofTopLevel` — the registry has the names of the top level
* `renderProgram_lexical` — names are written by the rules of lexical scoping
-/

namespace TreeToCpp

/-! ## What is visible -/

namespace Site

theorem sees_enter (site : Site) (mangled : String) :
    site.enter.sees mangled = site.sees mangled := rfl

/-- Inside a body, a declaration is visible behind its name. -/
theorem sees_declare {site : Site} (hopen : site.locals ≠ none) (name mangled : String) :
    (site.declare name).sees mangled ↔ mangled = mangle name ∨ site.sees mangled := by
  obtain ⟨region, _ | names⟩ := site
  · exact absurd rfl hopen
  · simp [declare, sees]

/-- The place behind some statements of a list. -/
def behind (site : Site) (earlier : List Node) : Site :=
  earlier.foldl after site

theorem locals_after {site : Site} (hopen : site.locals ≠ none) (node : Node) :
    (site.after node).locals ≠ none := by
  cases node with
  | variableDecl => simpa [after, declare] using hopen
  | _ => exact hopen

/-- Inside a body, a statement of a list sees the variables that are declared earlier in the list,
and what is visible around the list. -/
theorem sees_behind {site : Site} (hopen : site.locals ≠ none) (earlier : List Node)
    (mangled : String) :
    (site.behind earlier).sees mangled ↔
      (∃ loc name type isConstant value,
        .variableDecl loc name type isConstant value ∈ earlier ∧ mangle name = mangled) ∨
      site.sees mangled := by
  induction earlier generalizing site with
  | nil => simp [behind]
  | cons node rest ih =>
    rw [behind, List.foldl_cons, ← behind, ih (locals_after hopen node)]
    cases node with
    | variableDecl loc name type isConstant value =>
      rw [after, sees_declare hopen]
      constructor
      · rintro (⟨_, _, _, _, _, hmem, hname⟩ | hname | hsees)
        · exact .inl ⟨_, _, _, _, _, List.mem_cons_of_mem _ hmem, hname⟩
        · exact .inl ⟨_, _, _, _, _, List.mem_cons_self .., hname.symm⟩
        · exact .inr hsees
      · rintro (⟨_, _, _, _, _, hmem, hname⟩ | hsees)
        · rcases List.mem_cons.mp hmem with heq | hmem
          · cases heq
            exact .inr (.inl hname.symm)
          · exact .inl ⟨_, _, _, _, _, hmem, hname⟩
        · exact .inr (.inr hsees)
    | _ => simp [after]

/-- Around its header and its body, a loop sees the variable that it starts with. -/
theorem sees_afterStart {site : Site} (hopen : site.locals ≠ none) (start : Option Node)
    (mangled : String) :
    (site.afterStart start).sees mangled ↔
      (∃ loc name type isConstant value,
        start = some (.variableDecl loc name type isConstant value) ∧ mangle name = mangled) ∨
      site.sees mangled := by
  cases start with
  | none => simp [Site.afterStart]
  | some node =>
    cases node with
    | variableDecl loc name type isConstant value =>
      rw [afterStart, after, sees_declare hopen, eq_comm]
      constructor
      · rintro (hname | hsees)
        · exact .inl ⟨_, _, _, _, _, rfl, hname⟩
        · exact .inr hsees
      · rintro (⟨_, _, _, _, _, heq, hname⟩ | hsees)
        · cases heq
          exact .inl hname
        · exact .inr hsees
    | _ => simp [afterStart, after]

end Site

/-- The body of a function sees the parameters, whatever their types are, and what is visible around
the function. At the top level nothing is. -/
theorem Outline.sees_paramsSite (site : Site) (params : List TypedName) (mangled : String) :
    (paramsSite site params).sees mangled ↔
      (∃ param ∈ params, mangle param.name = mangled) ∨ site.sees mangled := by
  suffices h : ∀ site : Site, site.locals ≠ none →
      ((params.foldl (fun site param => site.declare param.name) site).sees mangled ↔
        (∃ param ∈ params, mangle param.name = mangled) ∨ site.sees mangled) from
    h { site.enter with region := .function } (by simp [Site.enter])
  induction params with
  | nil => simp
  | cons param rest ih =>
    intro site hopen
    have hopen' : (site.declare param.name).locals ≠ none := by
      simpa [Site.declare] using hopen
    rw [List.foldl_cons, ih _ hopen', Site.sees_declare hopen, eq_comm (a := mangled)]
    simp only [List.mem_cons, exists_eq_or_imp]
    exact or_left_comm.trans or_assoc.symm

/-! ## The names of the top level -/

/-- The mangled names of the functions, variables and structures of the top level. -/
def globalNames (body : List Node) : List String :=
  (body.filterMap Registry.declaration?).map fun (name, _) => mangle name

namespace Registry

theorem contains_register (registry : Registry) (name : String) (kind : SymbolKind)
    (mangled : String) :
    (registry.register name kind).contains mangled =
      (registry.contains mangled || mangled == mangle name) := by
  simp only [contains]
  rw [kindOf_register]
  by_cases same : mangled = mangle name <;> simp [same]

theorem contains_registerAll (registry : Registry) (names : List (String × SymbolKind))
    (mangled : String) :
    (registry.registerAll names).contains mangled =
      (registry.contains mangled || (names.map fun (name, _) => mangle name).contains mangled) := by
  rw [registerAll]
  induction names generalizing registry with
  | nil => simp
  | cons entry rest ih => rw [List.foldl_cons, ih, contains_register]; simp [Bool.or_assoc]

/-- The registry has the names of the top level. -/
theorem contains_ofTopLevel (body : List Node) :
    (ofTopLevel body).contains = (globalNames body).contains := by
  funext mangled
  rw [ofTopLevel, globalNames]
  rw [contains_registerAll]
  rfl

end Registry

/-! ## The rule -/

theorem Outline.statements_append (setup : Setup) (names : Site → Naming) (site : Site)
    (earlier rest : List Node) :
    statements setup names site (earlier ++ rest) =
      statements setup names site earlier ++ statements setup names (site.behind earlier) rest := by
  induction earlier generalizing site with
  | nil => rfl
  | cons node earlier ih =>
    rw [List.cons_append, statements, statements, ih, Written.append_assoc, Site.behind,
      Site.behind, List.foldl_cons]

/-- Which declarations a place sees. -/
structure LexicalScoping : Prop where
  /-- At the top level there is nothing to see. -/
  topLevel : ∀ mangled, Outline.namespaceSite.sees mangled = false ∧
    Outline.entrySite.sees mangled = false
  /-- A function sees its parameters, and what is visible around it. -/
  parameters : ∀ (site : Site) params mangled, (Outline.paramsSite site params).sees mangled ↔
    (∃ param ∈ params, mangle param.name = mangled) ∨ site.sees mangled
  /-- A statement is written behind the earlier ones of its list. -/
  order : ∀ setup names site earlier rest, Outline.statements setup names site (earlier ++ rest) =
    Outline.statements setup names site earlier ++
      Outline.statements setup names (site.behind earlier) rest
  /-- It sees the variables that these declare, and what is visible around the list. -/
  earlier : ∀ (site : Site) earlier mangled, (site.enter.behind earlier).sees mangled ↔
    (∃ loc name type isConstant value,
      .variableDecl loc name type isConstant value ∈ earlier ∧ mangle name = mangled) ∨
      site.sees mangled
  /-- The value of a variable sees the variable. -/
  own : ∀ (site : Site) name mangled, (site.enter.declare name).sees mangled ↔
    mangle name = mangled ∨ site.sees mangled
  /-- The header and the body of a loop see the variable that it starts with. -/
  loop : ∀ (site : Site) start mangled, (site.enter.afterStart start).sees mangled ↔
    (∃ loc name type isConstant value,
      start = some (.variableDecl loc name type isConstant value) ∧ mangle name = mangled) ∨
      site.sees mangled

theorem Site.locals_enter (site : Site) : site.enter.locals ≠ none := by
  simp [enter]

theorem lexicalScoping : LexicalScoping where
  topLevel _ := ⟨rfl, rfl⟩
  parameters := Outline.sees_paramsSite
  order := Outline.statements_append
  earlier site := Site.sees_behind site.locals_enter
  own site name mangled := by
    rw [Site.sees_declare site.locals_enter, Site.sees_enter, eq_comm]
  loop site := Site.sees_afterStart site.locals_enter

/-- In the text of every expression, every identifier stands as a naming has it: as `callee` where
it is what is called, as `reference` elsewhere. -/
def FollowsNaming (names : Naming) : Prop :=
  ∀ setting node text, expression names setting node = .ok text →
    WritesNames names setting node text

/-- **Names follow lexical scoping.** The text of a program is the text of its outline in which
every identifier is written by the rules of lexical scoping, from what is visible at the place where
it stands and from the names of the top level alone. Visible are the parameters of the function, the
variables that are declared earlier in a list of statements around the place, the variable whose
value it stands in, and those that the loops around it start with. At each site, the text of an
expression has the identifiers of the expression in their places, as these rules write them. -/
theorem renderProgram_lexical (options : Options) (body : List Node) :
    renderProgram options body =
        (Outline.sourceFile { options := options, registry := Registry.ofTopLevel body }
          (lexicalNaming options.namespaceName (globalNames body).contains) body).text
          options.indentWidth ∧
      LexicalScoping ∧
      ∀ site, FollowsNaming
        (lexicalNaming options.namespaceName (globalNames body).contains site) := by
  refine ⟨?_, lexicalScoping, fun _ _ _ _ => writesNames⟩
  rw [← Registry.contains_ofTopLevel]
  exact renderProgram_eq_text options body

end TreeToCpp
