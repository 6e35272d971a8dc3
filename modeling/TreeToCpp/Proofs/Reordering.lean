import TreeToCpp.Proofs.Variation

/-!
# The order of the top level

The names of the top level are collected before anything is written, so a node may refer to what is
declared behind it. What else depends on the order is little. Imports, declarations and statements
end up in three parts of the text, and neighbours that belong to different parts do not notice each
other. Two declarations stand in the same part, and with them their blocks change places. Everything
around the blocks stays, and so does what is inside them, because the registry is looked up by name
and holds the same names in either order. That fails where both are written under one name: the
first of them decides what the name stands for.

## Main definitions

* `Node.part` — the part of the text that a node is written in
* `declaredName?` — the name that a node declares, as it is written

## Main results

* `Registry.kindOf_ofTopLevel_swap` — the names of the top level in either order
* `Outline.text_sourceFile_of_kindOf` — the registry matters only through what it says about names
* `renderProgram_swap` — two neighbours change places
-/

namespace TreeToCpp

/-! ## Neighbours in a list -/

/-- Where one of two neighbours contributes nothing, their order does not matter. -/
theorem filterMap_swap {α β : Type} {contribution : α → Option β} {earlier later : List α} {x y : α}
    (h : contribution x = none ∨ contribution y = none) :
    (earlier ++ [x, y] ++ later).filterMap contribution =
      (earlier ++ [y, x] ++ later).filterMap contribution := by
  rcases h with h | h <;> simp [List.filterMap_cons, h]

namespace Written

theorem deeper_append (first rest : Written) :
    (first ++ rest).deeper = first.deeper ++ rest.deeper := by
  cases h : first.outcome with
  | error error => rw [append_of_error h, append_of_error (by exact h)]
  | ok =>
    rw [append_of_ok h, append_of_ok (by exact h)]
    simp [deeper]

theorem each_append {α : Type} (write : α → Written) (first rest : List α) :
    each write (first ++ rest) = each write first ++ each write rest := by
  induction first with
  | nil => rfl
  | cons item first ih => rw [List.cons_append, each, each, ih, append_assoc]

theorem each_swap {α : Type} {write : α → Written} {earlier later : List α} {x y : α}
    (h : write x = nothing ∨ write y = nothing) :
    each write (earlier ++ [x, y] ++ later) = each write (earlier ++ [y, x] ++ later) := by
  rcases h with h | h <;> simp [each_append, each, h]

/-- Two writings in a row change places. Either one of all the writings fails, and then both texts
do, or the texts of the two change places. -/
theorem text_swap (front first second behind : Written) (width : Nat) :
    (∃ error error', (front ++ (first ++ second) ++ behind).text width = .error error ∧
        (front ++ (second ++ first) ++ behind).text width = .error error') ∨
      ∃ before block block' rest, first.Gives width 0 block ∧ second.Gives width 0 block' ∧
        (front ++ (first ++ second) ++ behind).text width =
          .ok (before ++ block ++ block' ++ rest) ∧
        (front ++ (second ++ first) ++ behind).text width =
          .ok (before ++ block' ++ block ++ rest) := by
  simp only [← text_eq_ok_iff, text_append]
  cases front.text width <;> cases first.text width <;> cases second.text width <;>
    cases behind.text width <;> try exact .inl ⟨_, _, rfl, rfl⟩
  rename_i before block block' rest
  refine .inr ⟨before, block, block', rest, rfl, rfl, ?_, ?_⟩ <;>
    simp [bind, Except.bind, pure, Except.pure, String.append_assoc]

end Written

/-! ## Parts of the text -/

/-- The part of the text that a node of the top level is written in. -/
inductive Part where
  | imports
  /-- The namespace of the program. -/
  | declarations
  /-- The entry point. -/
  | statements
  deriving DecidableEq, Repr

/-- The part of the text that a node of the top level is written in. -/
def Node.part : Node → Part
  | .importDecl .. => .imports
  | .functionDecl .. => .declarations
  | .structDecl .. => .declarations
  | .variableDecl .. => .declarations
  | _ => .statements

/-- The name that a node of the top level declares, as it is written. -/
def declaredName? (node : Node) : Option String :=
  (Registry.declaration? node).map fun (name, _) => mangle name

theorem declaration?_eq_none_iff {node : Node} :
    Registry.declaration? node = none ↔ node.part ≠ .declarations := by
  cases node <;> simp [Registry.declaration?, Node.part]

theorem importedModules_swap {earlier later : List Node} {x y : Node}
    (h : x.part ≠ .imports ∨ y.part ≠ .imports) :
    importedModules (earlier ++ [x, y] ++ later) =
      importedModules (earlier ++ [y, x] ++ later) := by
  refine importedModules_congr (filterMap_swap (h.imp ?_ ?_)) <;> intro hpart
  · cases x <;> first | rfl | exact absurd rfl hpart
  · cases y <;> first | rfl | exact absurd rfl hpart

namespace Outline

variable (setup : Setup) (names : Site → Naming)

theorem namespaceItem_of_part_ne {node : Node} (h : node.part ≠ .declarations) :
    namespaceItem setup names node = .nothing := by
  cases node <;> first | rfl | exact absurd rfl h

theorem entryItem_of_part_ne {node : Node} (h : node.part ≠ .statements) :
    entryItem setup names node = .nothing := by
  cases node <;> first | rfl | exact absurd rfl h

theorem prologue_swap {earlier later : List Node} {x y : Node}
    (h : x.part ≠ .imports ∨ y.part ≠ .imports) :
    prologue setup (earlier ++ [x, y] ++ later) = prologue setup (earlier ++ [y, x] ++ later) := by
  rw [prologue, prologue, importedModules_swap h]

theorem namespacePart_swap {earlier later : List Node} {x y : Node}
    (h : x.part ≠ .declarations ∨ y.part ≠ .declarations) :
    namespacePart setup names (earlier ++ [x, y] ++ later) =
      namespacePart setup names (earlier ++ [y, x] ++ later) := by
  have hitem := h.imp (namespaceItem_of_part_ne setup names) (namespaceItem_of_part_ne setup names)
  rw [namespacePart, namespacePart, Written.each_swap hitem]

theorem entryPoint_swap {earlier later : List Node} {x y : Node}
    (h : x.part ≠ .statements ∨ y.part ≠ .statements) :
    entryPoint setup names (earlier ++ [x, y] ++ later) =
      entryPoint setup names (earlier ++ [y, x] ++ later) := by
  have hitem := h.imp (entryItem_of_part_ne setup names) (entryItem_of_part_ne setup names)
  rw [entryPoint, entryPoint, Written.each_swap hitem]

/-- The lines in front of the blocks of two declarations in a row, those blocks, and the lines
behind them. -/
theorem sourceFile_declarations (earlier later : List Node) (x y : Node) :
    sourceFile setup names (earlier ++ [x, y] ++ later) =
      (prologue setup (earlier ++ [x, y] ++ later) ++
          (opening ("namespace " ++ setup.options.namespaceName) ++
            (Written.each (namespaceItem setup names) earlier).deeper)) ++
        ((namespaceItem setup names x).deeper ++ (namespaceItem setup names y).deeper) ++
        ((Written.each (namespaceItem setup names) later).deeper ++ .blank ++
          .code ("\x7d // namespace " ++ setup.options.namespaceName) ++ .blank ++
          entryPoint setup names (earlier ++ [x, y] ++ later)) := by
  simp only [sourceFile, namespacePart, Written.each_append, Written.each, Written.deeper_append,
    Written.append_assoc]
  rfl

end Outline

/-! ## The registry in either order -/

namespace Registry

theorem lookup_swap {β : Type} {earlier later : List (String × β)} {x y : String × β}
    (h : x.1 ≠ y.1) (name : String) :
    (earlier ++ [x, y] ++ later).lookup name = (earlier ++ [y, x] ++ later).lookup name := by
  obtain ⟨first, _⟩ := x
  obtain ⟨second, _⟩ := y
  simp only [List.lookup_append, List.lookup_cons, List.lookup_nil]
  by_cases hfirst : name = first
  · subst hfirst
    have hsecond : (name == second) = false := by simpa using h
    simp [hsecond]
  · have hdiffers : (name == first) = false := by simpa using hfirst
    simp [hdiffers]

/-- Two declarations of different names can be collected in either order. -/
theorem kindOf_ofTopLevel_swap (earlier later : List Node) {x y : Node}
    (h : declaredName? x ≠ declaredName? y) :
    (ofTopLevel (earlier ++ [x, y] ++ later)).kindOf =
      (ofTopLevel (earlier ++ [y, x] ++ later)).kindOf := by
  funext mangled
  simp only [ofTopLevel, kindOf_registerAll]
  cases hx : declaration? x with
  | none => rw [filterMap_swap (.inl hx)]
  | some entry =>
    cases hy : declaration? y with
    | none => rw [filterMap_swap (.inr hy)]
    | some entry' =>
      have hname : mangle entry.1 ≠ mangle entry'.1 := by
        simpa [declaredName?, hx, hy] using h
      simp only [List.filterMap_append, List.filterMap_cons, List.filterMap_nil, hx, hy,
        List.map_append, List.map_cons, List.map_nil]
      rw [lookup_swap hname]

end Registry

/-- The text of a file depends on the registry only through what it says about the names. -/
theorem Outline.text_sourceFile_of_kindOf (options : Options) {first second : Registry}
    (h : first.kindOf = second.kindOf) (body : List Node) :
    (sourceFile ⟨options, first⟩ (Setup.naming ⟨options, first⟩) body).text options.indentWidth =
      (sourceFile ⟨options, second⟩ (Setup.naming ⟨options, second⟩) body).text
        options.indentWidth := by
  let setups (isFirst : Bool) : Setup := ⟨options, if isFirst then first else second⟩
  have hkind : ∀ isFirst, (setups isFirst).registry.kindOf = second.kindOf := fun isFirst => by
    cases isFirst with
    | true => exact h
    | false => rfl
  have hspace : ∀ isFirst, (setups isFirst).options.namespaceName = options.namespaceName :=
    fun _ => rfl
  have hbanner : ∀ isFirst, (setups isFirst).options.banner = options.banner := fun _ => rfl
  have hcomments : isCommented setups true = isCommented setups false := rfl
  have hlines := alike_sourceFile (filesAlike_constant hkind hspace) hbanner body
  exact hlines.text_eq_of_constant hcomments options.indentWidth

/-! ## Programs -/

/-- A declaration and its neighbour change places while the registry stays. -/
theorem Outline.text_sourceFile_swap (setup : Setup) (earlier later : List Node) {x : Node}
    (y : Node) (hx : x.part = .declarations) :
    (∃ error error',
      (sourceFile setup setup.naming (earlier ++ [x, y] ++ later)).text setup.options.indentWidth =
        .error error ∧
      (sourceFile setup setup.naming (earlier ++ [y, x] ++ later)).text setup.options.indentWidth =
        .error error') ∨
    ∃ front block block' rest,
      Render.Writes (Render.namespaceItem setup x) (Draft.page setup.options 1 .namespaceScope)
        block ∧
      Render.Writes (Render.namespaceItem setup y) (Draft.page setup.options 1 .namespaceScope)
        block' ∧
      (sourceFile setup setup.naming (earlier ++ [x, y] ++ later)).text setup.options.indentWidth =
        .ok (front ++ block ++ block' ++ rest) ∧
      (sourceFile setup setup.naming (earlier ++ [y, x] ++ later)).text setup.options.indentWidth =
        .ok (front ++ block' ++ block ++ rest) := by
  have hwrites : ∀ node block,
      Render.Writes (Render.namespaceItem setup node) (Draft.page setup.options 1 .namespaceScope)
        block ↔
      (namespaceItem setup setup.naming node).deeper.Gives setup.options.indentWidth 0 block :=
    fun node _ => (Render.Runs.writes_iff (Render.keeps_namespaceItem setup node rfl rfl)).trans
      Written.gives_deeper.symm
  have himports : x.part ≠ .imports ∨ y.part ≠ .imports := .inl (by simp [hx])
  have hstatements : x.part ≠ .statements ∨ y.part ≠ .statements := .inl (by simp [hx])
  simp only [hwrites, sourceFile_declarations]
  rw [← prologue_swap setup himports, ← entryPoint_swap setup setup.naming hstatements]
  exact Written.text_swap ..

/-- **Independent nodes of the top level can change places.** Two neighbours that are written in
different parts of the text can stand in either order, and the outcome is the same. Two declarations
with different names can do so too. Either the program is refused in both orders, or its two texts
differ in nothing but the order of the two blocks that the declarations write on a page of their
own. -/
theorem renderProgram_swap (options : Options) (earlier later : List Node) (x y : Node) :
    (x.part ≠ y.part →
      renderProgram options (earlier ++ [x, y] ++ later) =
        renderProgram options (earlier ++ [y, x] ++ later)) ∧
    (x.part = .declarations → y.part = .declarations → declaredName? x ≠ declaredName? y →
      (∃ error error',
        renderProgram options (earlier ++ [x, y] ++ later) = .error error ∧
        renderProgram options (earlier ++ [y, x] ++ later) = .error error') ∨
      ∃ front block block' rest,
        Render.Writes
          (Render.namespaceItem ⟨options, Registry.ofTopLevel (earlier ++ [x, y] ++ later)⟩ x)
          (Draft.page options 1 .namespaceScope) block ∧
        Render.Writes
          (Render.namespaceItem ⟨options, Registry.ofTopLevel (earlier ++ [x, y] ++ later)⟩ y)
          (Draft.page options 1 .namespaceScope) block' ∧
        renderProgram options (earlier ++ [x, y] ++ later) =
          .ok (front ++ block ++ block' ++ rest) ∧
        renderProgram options (earlier ++ [y, x] ++ later) =
          .ok (front ++ block' ++ block ++ rest)) := by
  simp only [renderProgram_eq_text]
  constructor
  · intro hparts
    have hone : ∀ part, x.part ≠ part ∨ y.part ≠ part := fun part =>
      not_and_or.mp fun h => hparts (h.1.trans h.2.symm)
    have hregistry : Registry.ofTopLevel (earlier ++ [x, y] ++ later) =
        Registry.ofTopLevel (earlier ++ [y, x] ++ later) := by
      rw [Registry.ofTopLevel, Registry.ofTopLevel, filterMap_swap]
      exact (hone .declarations).imp declaration?_eq_none_iff.mpr declaration?_eq_none_iff.mpr
    rw [hregistry, Outline.sourceFile, Outline.sourceFile, Outline.prologue_swap _ (hone .imports),
      Outline.namespacePart_swap _ _ (hone .declarations),
      Outline.entryPoint_swap _ _ (hone .statements)]
  · intro hx _ hnames
    have hregistry := Registry.kindOf_ofTopLevel_swap earlier later hnames
    have htext := Outline.text_sourceFile_of_kindOf options hregistry
      (earlier ++ [y, x] ++ later)
    simp only [Setup.naming] at htext
    rw [← htext]
    exact Outline.text_sourceFile_swap ⟨options, _⟩ earlier later y hx

/-- An import in front of or behind a function, and that function in front of or behind the one that
it calls. -/
theorem renderProgram_swap_caller :
    let loc : Location := ⟨"", none⟩
    let library : Node := .importDecl loc "library"
    let caller : Node := .functionDecl loc "f" [] none <|
      .exprStmt loc (.call loc (.identifier loc "g") [])
    let callee : Node := .functionDecl loc "g" [] none (.block loc [])
    renderProgram {} [library, caller, callee] = renderProgram {} [caller, library, callee] ∧
      ∃ front block block' rest,
        renderProgram {} [library, caller, callee] = .ok (front ++ block ++ block' ++ rest) ∧
        renderProgram {} [library, callee, caller] = .ok (front ++ block' ++ block ++ rest) := by
  intro loc library caller callee
  have hok : (renderProgram {} [library, caller, callee]).isOk = true := by decide +kernel
  refine ⟨(renderProgram_swap {} [] [callee] library caller).1 (by decide), ?_⟩
  rcases (renderProgram_swap {} [library] [] caller callee).2 rfl rfl (by decide +kernel) with
    ⟨error, -, herror, -⟩ | ⟨front, block, block', rest, -, -, hfirst, hsecond⟩
  · rw [show renderProgram {} [library, caller, callee] = .error error from herror] at hok
    cases hok
  · exact ⟨front, block, block', rest, hfirst, hsecond⟩

end TreeToCpp
