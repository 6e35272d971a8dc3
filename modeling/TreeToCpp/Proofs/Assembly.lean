import Mathlib.Logic.Basic
import TreeToCpp.Proofs.Acceptance

/-!
# How a file is put together

The nodes of the top level are gone through three times, for the imports, for the namespace and for
the entry point, and each time only some of them are written. This file says what comes out as one
text: a fixed frame with blocks in it, one for each node that is written at all, in the order of the
source. A block is the text that its node gives on a page of its own, where no scope is open and
nothing was written before. So the nodes of the top level do not influence each other's text, except
through the names that the registry has collected from all of them.

The statement is an equivalence. That each part can be written on its own is all that it takes for
the program to have a text.

## Main definitions

* `FirstOccurrences` — the distinct entries of a list
* `Blocks` — one block for each selected node
* `Render.Writes`, `Draft.page` — the text of a step on its own
* `Assembly` — the frame

## Main results

* `firstOccurrences_importedModules`, `FirstOccurrences.unique` — the imports
* `Written.gives_append`, `Written.gives_each` — the text of lines in a row
* `renderProgram_eq_ok_iff_assembled` — programs
-/

namespace TreeToCpp

/-! ## The imports -/

/-- The paths of the imports of the top level, with repetitions. -/
def importPaths (body : List Node) : List String :=
  body.filterMap fun
    | .importDecl _ path => some path
    | _ => none

/-- The distinct entries of a list, each once, in the order in which they first occur. -/
structure FirstOccurrences (entries distinct : List String) : Prop where
  mem_iff : ∀ entry, entry ∈ distinct ↔ entry ∈ entries
  nodup : distinct.Nodup
  order : distinct.Pairwise fun earlier later => entries.idxOf earlier < entries.idxOf later

/-- There is only one such list. -/
theorem FirstOccurrences.unique {entries first second : List String}
    (hfirst : FirstOccurrences entries first) (hsecond : FirstOccurrences entries second) :
    first = second := by
  have hperm : first.Perm second :=
    (List.perm_ext_iff_of_nodup hfirst.nodup hsecond.nodup).mpr fun entry =>
      (hfirst.mem_iff entry).trans (hsecond.mem_iff entry).symm
  refine hperm.eq_of_pairwise (fun a b _ _ hab hba => ?_) hfirst.order hsecond.order
  omega

theorem firstOccurrences_cons {path : String} {entries distinct : List String}
    (h : FirstOccurrences entries distinct) :
    FirstOccurrences (path :: entries) (path :: distinct.filter (· != path)) where
  mem_iff entry := by
    simp only [List.mem_cons, List.mem_filter, h.mem_iff, bne_iff_ne, ne_eq]
    by_cases hsame : entry = path <;> simp [hsame]
  nodup := List.nodup_cons.mpr ⟨by simp, h.nodup.filter _⟩
  order := by
    have hlater : ∀ entry ∈ distinct.filter (· != path),
        (path :: entries).idxOf entry = entries.idxOf entry + 1 := fun entry hentry => by
      have hne : entry ≠ path := by simpa using (List.mem_filter.mp hentry).2
      simp [List.idxOf_cons, beq_eq_false_iff_ne.mpr hne.symm]
    refine List.pairwise_cons.mpr ⟨fun entry hentry => ?_, ?_⟩
    · rw [List.idxOf_cons_self, hlater entry hentry]
      omega
    · refine (h.order.filter _).imp_of_mem fun {a b} ha hb horder => ?_
      rw [hlater a ha, hlater b hb]
      omega

/-- Every imported module is included once, in the order of the first imports. -/
theorem firstOccurrences_importedModules (body : List Node) :
    FirstOccurrences (importPaths body) (importedModules body) := by
  induction body with
  | nil => exact ⟨fun _ => .rfl, .nil, .nil⟩
  | cons node rest ih =>
    cases node with
    | importDecl => exact firstOccurrences_cons ih
    | _ => exact ih

theorem importedModules_congr {body body' : List Node} (h : importPaths body = importPaths body') :
    importedModules body = importedModules body' :=
  (firstOccurrences_importedModules body).unique (h ▸ firstOccurrences_importedModules body')

/-! ## Blocks -/

/-- One block for each selected item, once, in the order of the items. -/
inductive Blocks {α : Type} (selected : α → Prop) (writes : α → String → Prop) :
    List α → List String → Prop
  | nil : Blocks selected writes [] []
  | write {item block rest blocks} :
      selected item → writes item block → Blocks selected writes rest blocks →
      Blocks selected writes (item :: rest) (block :: blocks)
  | skip {item rest blocks} :
      ¬selected item → Blocks selected writes rest blocks →
      Blocks selected writes (item :: rest) blocks

namespace Written

variable {width level : Nat} {text : String}

/-- Lines that are all there, and their text at a given level. -/
def Gives (written : Written) (width level : Nat) (text : String) : Prop :=
  written.outcome = .ok () ∧ String.join (written.lines.map (Line.text width level)) = text

theorem text_eq_ok_iff {written : Written} :
    written.text width = .ok text ↔ written.Gives width 0 text := by
  cases houtcome : written.outcome <;> simp [Written.text, Gives, houtcome, Except.map]

/-- The text of lines in a row. -/
theorem text_append (first rest : Written) :
    (first ++ rest).text width = do
      let before ← first.text width
      let behind ← rest.text width
      return before ++ behind := by
  cases hfirst : first.outcome with
  | error error =>
    rw [append_of_error hfirst, Written.text, hfirst]
    rfl
  | ok =>
    rw [append_of_ok hfirst]
    cases hrest : rest.outcome <;>
      simp [Written.text, hfirst, hrest, Except.map, bind, Except.bind, pure, Except.pure]

theorem gives_nothing : nothing.Gives width level text ↔ "" = text := by
  simp [Gives, nothing, String.join]

theorem gives_blank : blank.Gives width level text ↔ "\n" = text := by
  simp [Gives, blank, String.join, Line.text]

theorem gives_append {first rest : Written} :
    (first ++ rest).Gives width level text ↔
      ∃ before, first.Gives width level before ∧
        ∃ behind, rest.Gives width level behind ∧ before ++ behind = text := by
  cases hfirst : first.outcome with
  | error error => simp [Gives, append_of_error hfirst, hfirst]
  | ok =>
    rw [append_of_ok hfirst]
    simp [Gives, hfirst, and_assoc]

/-- One level deeper, the text is the one of the level below. -/
theorem gives_deeper {written : Written} :
    written.deeper.Gives width level text ↔ written.Gives width (level + 1) text := by
  have hline : Line.text width level ∘ Line.deeper = Line.text width (level + 1) := by
    funext line
    cases line with
    | blank => rfl
    | code depth content =>
      simp only [Line.text, Line.deeper, Function.comp_apply]
      rw [show level + (depth + 1) = level + 1 + depth by omega]
  simp only [Gives, deeper, List.map_map, hline]

/-- Where only the selected items of a list give lines, the text is made of their blocks. -/
theorem gives_each {α : Type} {selected : α → Prop} {writes : α → String → Prop}
    {write : α → Written} {items : List α}
    (hselected : ∀ item, selected item → ∀ block,
      (write item).Gives width level block ↔ writes item block)
    (hskipped : ∀ item, ¬selected item → write item = nothing) :
    (each write items).Gives width level text ↔
      ∃ blocks, Blocks selected writes items blocks ∧ String.join blocks = text := by
  induction items generalizing text with
  | nil =>
    refine gives_nothing.trans ⟨fun h => ⟨[], .nil, h⟩, ?_⟩
    rintro ⟨_, _ | _ | _, h⟩
    exact h
  | cons item rest ih =>
    rw [each]
    by_cases hitem : selected item
    · rw [gives_append]
      simp only [hselected item hitem, ih]
      constructor
      · rintro ⟨block, hblock, behind, ⟨blocks, hblocks, rfl⟩, rfl⟩
        exact ⟨block :: blocks, .write hitem hblock hblocks, String.join_cons⟩
      · rintro ⟨_, _ | ⟨-, hblock, hblocks⟩ | ⟨hskip, -⟩, rfl⟩
        · exact ⟨_, hblock, _, ⟨_, hblocks, rfl⟩, String.join_cons.symm⟩
        · exact absurd hitem hskip
    · rw [hskipped item hitem, nothing_append, ih]
      constructor
      · rintro ⟨blocks, hblocks, h⟩
        exact ⟨blocks, .skip hitem hblocks, h⟩
      · rintro ⟨blocks, _ | ⟨hselect, -, -⟩ | ⟨-, hblocks⟩, h⟩
        · exact absurd hselect hitem
        · exact ⟨_, hblocks, h⟩

end Written

/-! ## Pages -/

/-- A draft without text in which no scope is open. -/
def Draft.page (options : Options) (depth : Nat) (region : Region) : Draft where
  layout := { indentWidth := options.indentWidth, depth := depth, text := "" }
  scopes := Scopes.empty
  region := region

namespace Render

/-- A step comes to its end on a page and writes a text there. -/
def Writes (step : Render Unit) (page : Draft) (text : String) : Prop :=
  (exec step page).1 = .ok () ∧ (exec step page).2.layout.text = text

theorem Runs.writes_iff {step : Render Unit} {options : Options} {depth : Nat} {region : Region}
    {written : Written} {scopes : Scopes} {text : String}
    (h : Runs step (Draft.page options depth region) written scopes) :
    Writes step (Draft.page options depth region) text ↔
      written.Gives options.indentWidth depth text := by
  rw [Writes, h, Written.Gives]
  simp [Draft.wrote, Draft.page, Layout.write]

end Render

/-! ## The frame -/

/-- A function, a structure or a variable. -/
def IsBound (node : Node) : Prop :=
  node.kind = .functionDecl ∨ node.kind = .structDecl ∨ node.kind = .variableDecl

/-- A node of the top level that the entry point runs: it is no import and no declaration, and not a
call of `main` if the program has one. -/
def IsRun (body : List Node) (node : Node) : Prop :=
  IsFree node ∧ ¬(MainIsFunction body ∧ IsMainCall node)

instance (body : List Node) : Decidable (MainIsFunction body) :=
  inferInstanceAs (Decidable (_ = _))

namespace Assembly

variable (options : Options)

/-- A line with its margin. -/
def line (depth : Nat) (content : String) : String :=
  String.ofList (List.replicate (depth * options.indentWidth) ' ') ++ content ++ "\n"

/-- The comment at the top with an empty line behind it, if it is asked for. -/
def banner : String :=
  if options.banner then
    "/**\n * @file output.cpp\n * @brief Generated by Fax-lang Polyglot Compiler\n */\n\n"
  else ""

/-- The banner, and a directive for every header. -/
def prologue (imports : List String) : String :=
  banner options ++
    line options 0 "#include \"fax_runtime.hpp\"" ++
    line options 0 "#include <cmath>" ++
    String.join (imports.map fun path => line options 0 ("#include \"" ++ path ++ ".hpp\"")) ++
    "\n"

/-- The line that opens the namespace. -/
def namespaceOpening : String :=
  line options 0 ("namespace " ++ options.namespaceName ++ " \x7b")

/-- The line that closes the namespace, with empty lines around it. -/
def namespaceClosing : String :=
  "\n" ++ line options 0 ("\x7d // namespace " ++ options.namespaceName) ++ "\n"

/-- The lines that open the entry point. -/
def entryOpening : String :=
  line options 0 "int main(int argc, char* argv[]) \x7b" ++ line options 1 "try \x7b"

/-- The line that calls `main`, if the program has one. -/
def mainCall (body : List Node) : String :=
  if MainIsFunction body then line options 2 (options.namespaceName ++ "::main();") else ""

/-- The lines behind the statements of the program. -/
def ending : String :=
  line options 2 "return 0;" ++
    line options 1 "\x7d catch (const std::exception& e) \x7b" ++
    line options 2 "std::cerr << \"[FATAL]: \" << e.what() << std::endl;" ++
    line options 2 "return 1;" ++
    line options 1 "\x7d" ++
    line options 0 "\x7d"

end Assembly

/-! ## The parts of the file -/

namespace Outline

open Render (quotedHeader Writes Runs)

variable (setup : Setup) {text : String}

theorem gives_line {level : Nat} {content : String} :
    (Written.code content).Gives setup.options.indentWidth level text ↔
      Assembly.line setup.options level content = text := by
  simp [Written.Gives, Written.code, String.join, Line.text, Assembly.line]

theorem gives_lines {α : Type} {level : Nat} (content : α → String) (items : List α) :
    (Written.each (fun item => .code (content item)) items).Gives setup.options.indentWidth level
        text ↔
      String.join (items.map fun item => Assembly.line setup.options level (content item)) =
        text := by
  induction items generalizing text with
  | nil => exact Written.gives_nothing
  | cons item rest ih =>
    rw [Written.each, Written.gives_append]
    simp [gives_line, ih]

/-- The lines of the comment at the top, if it is asked for. -/
def banner : Written :=
  if setup.options.banner then Written.each .code bannerLines ++ .blank else .nothing

theorem gives_banner :
    (banner setup).Gives setup.options.indentWidth 0 text ↔
      Assembly.banner setup.options = text := by
  have hlines : ∀ text, (Written.each .code bannerLines).Gives setup.options.indentWidth 0 text ↔
      "/**\n * @file output.cpp\n * @brief Generated by Fax-lang Polyglot Compiler\n */\n" =
        text := fun text => by
    refine (gives_lines setup id bannerLines).trans (Eq.congr_left ?_)
    simp only [Assembly.line, Nat.zero_mul]
    rfl
  rw [banner, Assembly.banner]
  split
  · simp only [Written.gives_append, hlines, Written.gives_blank, exists_eq_left']
    exact .rfl
  · exact Written.gives_nothing

theorem gives_prologue (body : List Node) :
    (prologue setup body).Gives setup.options.indentWidth 0 text ↔
      Assembly.prologue setup.options (importedModules body) = text := by
  have hstandard : ∀ text, (Written.each includeLine SupportLibrary.standardHeaders).Gives
      setup.options.indentWidth 0 text ↔ Assembly.line setup.options 0 "#include <cmath>" = text :=
    fun _ => (gives_lines setup ("#include " ++ ·) _).trans (Eq.congr_left (String.empty_append))
  have hpath : ∀ path, "#include " ++ quotedHeader (path ++ SupportLibrary.headerExtension) =
      "#include \"" ++ path ++ ".hpp\"" := fun path => by
    simp [← String.toList_inj, quotedHeader, SupportLibrary.headerExtension]
  have hheader : "#include " ++ quotedHeader SupportLibrary.header =
      "#include \"fax_runtime.hpp\"" := rfl
  rw [prologue, ← banner]
  simp only [Assembly.prologue, includeLine, hheader, hpath, Written.gives_append,
    Written.gives_blank, gives_banner, gives_line, hstandard, gives_lines, exists_eq_left']

variable {body : List Node}

/-- The namespace holds the blocks of the declarations. -/
theorem gives_namespacePart :
    (namespacePart setup setup.naming body).Gives setup.options.indentWidth 0 text ↔
      ∃ blocks, Blocks IsBound (fun node => Writes (Render.namespaceItem setup node)
        (Draft.page setup.options 1 .namespaceScope)) body blocks ∧
        Assembly.namespaceOpening setup.options ++ String.join blocks ++
          Assembly.namespaceClosing setup.options = text := by
  have hitems : ∀ text, (Written.each (namespaceItem setup setup.naming) body).Gives
      setup.options.indentWidth 1 text ↔ ∃ blocks, Blocks IsBound (fun node =>
        Writes (Render.namespaceItem setup node) (Draft.page setup.options 1 .namespaceScope))
        body blocks ∧ String.join blocks = text := fun text =>
    Written.gives_each
      (fun node _ _ => (Runs.writes_iff (Render.keeps_namespaceItem setup node rfl rfl)).symm)
      fun node hnode => by cases node <;> simp_all [IsBound, Node.kind, namespaceItem]
  simp only [namespacePart, opening, Written.gives_append, Written.gives_deeper, gives_line,
    Written.gives_blank, hitems, exists_eq_left', exists_exists_and_eq_and,
    Assembly.namespaceOpening, Assembly.namespaceClosing, String.append_assoc]

/-- The entry point holds the blocks of the statements. -/
theorem gives_entryPoint (hregistry : setup.registry = Registry.ofTopLevel body) :
    (entryPoint setup setup.naming body).Gives setup.options.indentWidth 0 text ↔
      ∃ blocks, Blocks (IsRun body) (fun node => Writes (Render.statement setup true node)
        (Draft.page setup.options 2 .entryPoint)) body blocks ∧
        Assembly.entryOpening setup.options ++ String.join blocks ++
          Assembly.mainCall setup.options body ++ Assembly.ending setup.options = text := by
  have hmain := Registry.hasEntryPoint_ofTopLevel body
  rw [← hregistry] at hmain
  have hrun : ∀ node, (isDeclaration node || (setup.registry.hasEntryPoint &&
      isEntryStatement node)) = false ↔ IsRun body node := fun node => by
    rw [Bool.or_eq_false_iff, isDeclaration_eq_false_iff, IsRun, ← hmain, ← isEntryStatement_iff,
      ← Bool.and_eq_true, Bool.not_eq_true]
  have hitems : ∀ text, (Written.each (entryItem setup setup.naming) body).Gives
      setup.options.indentWidth 2 text ↔ ∃ blocks, Blocks (IsRun body) (fun node =>
        Writes (Render.statement setup true node) (Draft.page setup.options 2 .entryPoint))
        body blocks ∧ String.join blocks = text := fun text =>
    Written.gives_each
      (fun node hnode _ => by
        rw [entryItem, if_neg (by simp [(hrun node).mpr hnode])]
        exact (Runs.writes_iff (Render.runs_statement setup node _)).symm)
      fun node hnode => by
        rw [entryItem, if_pos (Bool.not_eq_false _ ▸ mt (hrun node).mp hnode)]
  have hcall : ∀ text, (entryCall setup).Gives setup.options.indentWidth 2 text ↔
      Assembly.mainCall setup.options body = text := fun text => by
    rw [entryCall, Assembly.mainCall]
    by_cases h : MainIsFunction body
    · rw [if_pos (hmain.mpr h), if_pos h, terminated, gives_line,
        mangle_eq_entryPointName_iff.mpr rfl]
      simp only [String.append_assoc]
      exact .rfl
    · rw [if_neg (mt hmain.mp h), if_neg h]
      exact Written.gives_nothing
  simp only [entryPoint, opening, closing, catchBody, Written.gives_append, Written.gives_deeper,
    gives_line, hitems, hcall, exists_eq_left', exists_exists_and_eq_and,
    Assembly.entryOpening, Assembly.ending, String.append_assoc]
  rfl

/-- The file is its frame with the blocks of the top level. -/
theorem gives_sourceFile (hregistry : setup.registry = Registry.ofTopLevel body) :
    (sourceFile setup setup.naming body).Gives setup.options.indentWidth 0 text ↔
      ∃ imports declarations statements,
        FirstOccurrences (importPaths body) imports ∧
        Blocks IsBound (fun node => Writes (Render.namespaceItem setup node)
          (Draft.page setup.options 1 .namespaceScope)) body declarations ∧
        Blocks (IsRun body) (fun node => Writes (Render.statement setup true node)
          (Draft.page setup.options 2 .entryPoint)) body statements ∧
        text =
          Assembly.prologue setup.options imports ++
          Assembly.namespaceOpening setup.options ++
          String.join declarations ++
          Assembly.namespaceClosing setup.options ++
          Assembly.entryOpening setup.options ++
          String.join statements ++
          Assembly.mainCall setup.options body ++
          Assembly.ending setup.options := by
  simp only [sourceFile, Written.gives_append, gives_prologue, gives_namespacePart,
    gives_entryPoint setup hregistry, exists_eq_left', exists_exists_and_eq_and,
    String.append_assoc]
  constructor
  · rintro ⟨declarations, hdeclarations, statements, hstatements, rfl⟩
    exact ⟨_, declarations, statements, firstOccurrences_importedModules body, hdeclarations,
      hstatements, rfl⟩
  · rintro ⟨imports, declarations, statements, himports, hdeclarations, hstatements, rfl⟩
    obtain rfl := himports.unique (firstOccurrences_importedModules body)
    exact ⟨declarations, hdeclarations, statements, hstatements, rfl⟩

end Outline

/-- **A file is its frame with the blocks of the top level.** A program has a text exactly if each
of its declarations and each of the nodes that are run can be written on a page of its own. The text
is then the prologue with the distinct imports, the declarations between the lines of the namespace,
and the nodes that are run inside the entry point, behind which `main` is called if the program has
one. -/
theorem renderProgram_eq_ok_iff_assembled (options : Options) (body : List Node) (text : String) :
    renderProgram options body = .ok text ↔
      ∃ imports declarations statements,
        FirstOccurrences (importPaths body) imports ∧
        Blocks IsBound (fun node =>
          Render.Writes (Render.namespaceItem ⟨options, Registry.ofTopLevel body⟩ node)
            (Draft.page options 1 .namespaceScope)) body declarations ∧
        Blocks (IsRun body) (fun node =>
          Render.Writes (Render.statement ⟨options, Registry.ofTopLevel body⟩ true node)
            (Draft.page options 2 .entryPoint)) body statements ∧
        text =
          Assembly.prologue options imports ++
          Assembly.namespaceOpening options ++
          String.join declarations ++
          Assembly.namespaceClosing options ++
          Assembly.entryOpening options ++
          String.join statements ++
          Assembly.mainCall options body ++
          Assembly.ending options := by
  rw [renderProgram_eq_text, Written.text_eq_ok_iff]
  exact Outline.gives_sourceFile ⟨options, Registry.ofTopLevel body⟩ rfl

end TreeToCpp
