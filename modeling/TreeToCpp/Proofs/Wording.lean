import Mathlib.Data.List.Forall2
import TreeToCpp.Proofs.Outcome
import TreeToCpp.Proofs.Steps

/-!
# What a text is made of

An expression, a type or the head of a statement is put together from few kinds of pieces. Most are
words that do not depend on the program. The rest comes from the program: operators and
literals as they stand, the namespace, and names, which are always escaped.

This file follows the generator piece by piece. It says which names a text shows and in which
order, and it says that everything else in the text is not a name. Whatever is to be shown about all
texts has to be shown of the pieces then.

## Main definitions

* `Mention`, `Node.mentions` — what of a program its text may show
* `Composed` — a text is made of pieces, and which names are among them
* `Node.valueNames`, `typeNames` — the names that an expression and a type show

## Main results

* `composed_expression` — expressions
* `composed_typeText` — types
-/

namespace TreeToCpp

/-! ## What a program mentions -/

/-- Something in a program that its text may show. -/
inductive Mention where
  | name (name : String)
  | operator (operator : String)
  | type (type : String)
  | importPath (path : String)
  | literal (value : Literal)
  deriving DecidableEq

/-- What a parameter or a field mentions. -/
def TypedName.mentions (entry : TypedName) : List Mention :=
  [.name entry.name, .type entry.type]

mutual

/-- What a tree mentions, parts that are never written included. A function without a return type
counts as one with the default. -/
def Node.mentions : Node → List Mention
  | .program _ body => mentionsList body
  | .functionDecl _ name params returnType body =>
    .name name :: params.flatMap TypedName.mentions ++
      .type (returnType.getD Render.defaultReturnType) :: body.mentions
  | .variableDecl _ name type _ value =>
    .name name :: type.toList.map .type ++ mentions? value
  | .structDecl _ name fields methods =>
    .name name :: fields.flatMap TypedName.mentions ++ mentionsList methods
  | .importDecl _ path => [.importPath path]
  | .block _ body => mentionsList body
  | .exprStmt _ expression => expression.mentions
  | .ifStmt _ test consequent otherwise =>
    test.mentions ++ consequent.mentions ++ mentions? otherwise
  | .whileStmt _ test body => test.mentions ++ body.mentions
  | .forStmt _ start test update body =>
    mentions? start ++ mentions? test ++ mentions? update ++ body.mentions
  | .breakStmt _ => []
  | .continueStmt _ => []
  | .returnStmt _ argument => mentions? argument
  | .assign _ left right => left.mentions ++ right.mentions
  | .binary _ operator left right => .operator operator :: left.mentions ++ right.mentions
  | .unary _ operator argument => .operator operator :: argument.mentions
  | .call _ callee arguments => callee.mentions ++ mentionsList arguments
  | .member _ object property => .name property :: object.mentions
  | .index _ object position => object.mentions ++ position.mentions
  | .slice _ object lower upper => object.mentions ++ mentions? lower ++ mentions? upper
  | .literal _ value => [.literal value]
  | .identifier _ name => [.name name]
  | .array _ elements => mentionsList elements

/-- What the trees of a list mention. -/
def mentionsList : List Node → List Mention
  | [] => []
  | node :: rest => node.mentions ++ mentionsList rest

/-- What a tree mentions that may be absent. -/
def mentions? : Option Node → List Mention
  | none => []
  | some node => node.mentions

end

theorem mentions_subset_mentionsList {node : Node} {nodes : List Node} (h : node ∈ nodes) :
    node.mentions ⊆ mentionsList nodes := by
  induction h with
  | head => exact List.subset_append_left _ _
  | tail _ _ ih => exact List.subset_append_of_subset_right _ ih

/-- What is left of a type when all wrappers are taken off. -/
def TypeTerm.coreName : TypeTerm → String
  | .wrapped _ inner => inner.coreName
  | .core name => name

/-- What is left of an annotation when all wrappers are taken off. -/
def coreName (type : String) : String :=
  (TypeTerm.parse type.toList).coreName

/-! ## Pieces -/

/-- Words of every program that open a text. -/
def leadingWords : List String := [
  "(", "(*this)", "fax_std::println", "std::fmod", "fax_std::Array", "fax_std::Ptr",
  "auto", "int", "float", "bool", "std::string", "void",
  "const ", "if (", "while (", "for (", "return ", "return;", "break;", "continue;",
  "struct ", "/** @brief ", "#include ", "namespace ",
  "int main(int argc, char* argv[])", "try", "return 0;", "return 1;",
  "std::cerr << \"[FATAL]: \" << e.what() << std::endl;"]

/-- Words of every program that stand behind something else. -/
def connectives : List String := [
  " ", ")", ", ", ".", "[", "]", "<", ">", "&", " = ", ";", "; ",
  "<std::decay_t<decltype(", ")>::value_type>(", ".begin()", ".begin() + ", ".end()",
  " else", " else if (", " */", "()", "\"fax_runtime.hpp\"", "<cmath>", " // namespace ",
  " catch (const std::exception& e)"]

/-- What of a program may appear in a text: the name of the namespace, and what is mentioned. -/
structure Stock where
  namespaceName : String
  mentioned : List Mention

/-- What the text of a program may show that mentions all of this. -/
def Setup.stock (setup : Setup) (mentioned : List Mention) : Stock where
  namespaceName := setup.options.namespaceName
  mentioned := mentioned

/-- Where a name comes from that a text shows. -/
inductive IsName (stock : Stock) : String → Prop
  | mentioned {name} : .name name ∈ stock.mentioned → IsName stock name
  | annotated {type} : .type type ∈ stock.mentioned → coreName type ≠ "" →
      IsName stock (coreName type)
  | entryPoint : IsName stock entryPointName

/-- A text is made of pieces, and the names among them are the escaped forms of the names `written`,
in this order. A text that is `led` begins with a piece that can stand at the beginning of a line.
-/
inductive Composed (stock : Stock) : (led : Bool) → (text : String) → (written : List String) → Prop
  | nothing : Composed stock false "" []
  | word (word) (hword : word ∈ leadingWords := by simp [leadingWords]) :
      Composed stock true word []
  | connective (word) (hword : word ∈ connectives := by simp [connectives]) :
      Composed stock false word []
  | namespaceName : Composed stock false stock.namespaceName []
  | qualifier : Composed stock true (stock.namespaceName ++ "::") []
  | header {path} : .importPath path ∈ stock.mentioned →
      Composed stock false (Render.quotedHeader (path ++ SupportLibrary.headerExtension)) []
  | operator {operator} : .operator operator ∈ stock.mentioned → Composed stock true operator []
  | literal {value} : .literal value ∈ stock.mentioned → Composed stock true value.cpp []
  | name {name} : IsName stock name → Composed stock true (mangle name) [name]
  | braces {led text written} : Composed stock led text written →
      Composed stock true ("\x7b" ++ text ++ "\x7d") written
  | append {led led' text text' written written'} : Composed stock led text written →
      Composed stock led' text' written' → Composed stock led (text ++ text') (written ++ written')

variable {stock : Stock}

namespace Composed

variable {led : Bool} {text : String} {written : List String}

/-- A word in front. -/
theorem after (h : Composed stock led text written) (word : String)
    (hword : word ∈ leadingWords := by simp [leadingWords]) :
    Composed stock true (word ++ text) written :=
  (Composed.word word hword).append h

/-- A word behind. -/
theorem before (h : Composed stock led text written) (word : String)
    (hword : word ∈ connectives := by simp [connectives]) :
    Composed stock led (text ++ word) written := by
  simpa only [List.append_nil] using h.append (.connective word hword)

theorem parenthesized (h : Composed stock led text written) :
    Composed stock true (TreeToCpp.parenthesized text) written :=
  (h.after "(").before ")"

theorem objectText (object : Node) (h : Composed stock true text written) :
    Composed stock true (TreeToCpp.objectText object text) written := by
  unfold TreeToCpp.objectText
  split
  · exact h.parenthesized
  · exact h.parenthesized
  · exact h

/-- Texts with commas between them show the names of each of them. -/
theorem commaSeparated {α : Type} {names : α → List String} {texts : List String} {items : List α}
    (h : List.Forall₂ (fun text item => Composed stock true text (names item)) texts items) :
    ∃ led, Composed stock led (TreeToCpp.commaSeparated texts) (items.flatMap names) := by
  rw [TreeToCpp.commaSeparated]
  induction h with
  | nil => exact ⟨false, .nothing⟩
  | cons hitem hmore ih =>
    cases hmore with
    | nil => exact ⟨true, by simpa using hitem⟩
    | cons =>
      obtain ⟨_, hrest⟩ := ih
      rw [String.intercalate_cons_cons]
      exact ⟨true, (hitem.before ", ").append hrest⟩

end Composed

/-! ## Names of values -/

/-- The names that a reference shows. The receiver has no name of its own. -/
def referenceNames (name : String) : List String :=
  if name = receiverName then [] else [name]

/-- The names that a called name shows. The helpers of the support library are words. -/
def calledNames (name : String) : List String :=
  match Helper.ofName? name with
  | some _ => []
  | none => referenceNames name

/-- The names that a callee shows, given those that it shows as an expression. -/
def calleeNames : Node → List String → List String
  | .identifier _ name, _ => calledNames name
  | _, written => written

mutual

/-- The names that an expression shows, in order. A slice shows its object three times. -/
def Node.valueNames : Node → List String
  | .assign _ left right => left.valueNames ++ right.valueNames
  | .binary _ _ left right => left.valueNames ++ right.valueNames
  | .unary _ _ argument => argument.valueNames
  | .call _ callee arguments =>
    calleeNames callee callee.valueNames ++ valueNamesList arguments
  | .member _ object property => object.valueNames ++ [property]
  | .index _ object position => object.valueNames ++ position.valueNames
  | .slice _ object lower upper =>
    object.valueNames ++ (object.valueNames ++ valueNames? lower) ++
      (object.valueNames ++ valueNames? upper)
  | .identifier _ name => referenceNames name
  | .array _ elements => valueNamesList elements
  | _ => []

/-- The names that the expressions of a list show. -/
def valueNamesList : List Node → List String
  | [] => []
  | node :: rest => node.valueNames ++ valueNamesList rest

/-- The names that an expression shows that may be absent. -/
def valueNames? : Option Node → List String
  | none => []
  | some node => node.valueNames

end

theorem valueNamesList_eq_flatMap (nodes : List Node) :
    valueNamesList nodes = nodes.flatMap Node.valueNames := by
  induction nodes with
  | nil => rfl
  | cons node rest ih => rw [valueNamesList, ih, List.flatMap_cons]

/-- A way to write names that shows each of them once, or not at all where it is a word. -/
structure Naming.Shows (stock : Stock) (names : Naming) : Prop where
  reference : ∀ name, .name name ∈ stock.mentioned →
    Composed stock true (names.reference name) (referenceNames name)
  callee : ∀ name, .name name ∈ stock.mentioned →
    Composed stock true (names.callee name) (calledNames name)

theorem shows_lexicalNaming (isGlobal : String → Bool) (site : Site) :
    (lexicalNaming stock.namespaceName isGlobal site).Shows stock := by
  have hreference : ∀ name, .name name ∈ stock.mentioned →
      Composed stock true (lexicalReference stock.namespaceName isGlobal site name)
        (referenceNames name) := fun name hname => by
    have hbare : Composed stock true (mangle name) [name] := .name (.mentioned hname)
    unfold lexicalReference referenceNames
    split
    · exact .word _ (by simp [receiverText, leadingWords])
    · split
      · exact hbare
      · split
        · exact hbare
        · split
          · exact .append .qualifier hbare
          · exact hbare
  refine ⟨hreference, fun name hname => ?_⟩
  simp only [lexicalNaming, Naming.ofReference, calledNames]
  cases Helper.ofName? name with
  | none => exact hreference name hname
  | some helper => cases helper; exact .word _ (by simp [Helper.qualified, leadingWords])

/-! ## Expressions -/

theorem composed_binaryText {operator left right : String} {first second : List String}
    (setting : Setting) (hoperator : .operator operator ∈ stock.mentioned)
    (hleft : Composed stock true left first) (hright : Composed stock true right second) :
    Composed stock true (binaryText setting operator left right) (first ++ second) := by
  have htext : Composed stock true (left ++ " " ++ operator ++ " " ++ right) (first ++ second) := by
    have hbehind := ((hleft.before " ").append (.operator hoperator)).before " "
    simpa only [List.append_nil] using hbehind.append hright
  cases setting with
  | delimited => exact htext
  | operand => exact htext.parenthesized

theorem composed_unaryText {operator argument : String} {written : List String}
    (hoperator : .operator operator ∈ stock.mentioned)
    (hargument : Composed stock true argument written) :
    Composed stock true (unaryText operator argument) written := by
  unfold unaryText
  split
  · exact Composed.append (.operator hoperator) hargument.parenthesized
  · exact Composed.append (.operator hoperator) hargument

theorem composed_sliceText {object : String} {lower upper : Option String}
    {inner first last : List String} (hobject : Composed stock true object inner)
    (hlower : Composed stock true (boundText object ".begin()" lower) first)
    (hupper : Composed stock true (boundText object ".end()" upper) last) :
    Composed stock true (sliceText object lower upper) (inner ++ first ++ last) := by
  have hhead : Composed stock true
      (SupportLibrary.arrayType ++ "<std::decay_t<decltype(" ++ object ++ ")>::value_type>(")
      inner := by
    have harray : Composed stock true SupportLibrary.arrayType [] :=
      .word _ (by simp [SupportLibrary.arrayType, leadingWords])
    exact ((harray.before "<std::decay_t<decltype(").append hobject).before ")>::value_type>("
  have hcomma := (hhead.append hlower).before ", "
  exact (hcomma.append hupper).before ")"

mutual

/-- What an expression is made of. -/
theorem composed_expression {names : Naming} (hnames : names.Shows stock) {setting : Setting}
    {node : Node} {text : String} (hmem : node.mentions ⊆ stock.mentioned)
    (h : expression names setting node = .ok text) : Composed stock true text node.valueNames := by
  cases node with
  | assign _ left right =>
    simp only [Node.mentions, List.append_subset] at hmem
    simp only [expression, bind_eq_ok_iff, pure_eq_ok_iff] at h
    obtain ⟨target, htarget, value, hvalue, rfl⟩ := h
    have hleft := composed_expression hnames hmem.1 htarget
    have hright := composed_expression hnames hmem.2 hvalue
    exact (hleft.before " = ").append hright
  | binary _ operator left right =>
    simp only [Node.mentions, List.cons_append, List.cons_subset, List.append_subset] at hmem
    rw [expression] at h
    split at h
    · simp only [bind_eq_ok_iff, pure_eq_ok_iff] at h
      obtain ⟨dividend, hdividend, divisor, hdivisor, rfl⟩ := h
      have hleft := composed_expression hnames hmem.2.1 hdividend
      have hright := composed_expression hnames hmem.2.2 hdivisor
      obtain ⟨_, hlist⟩ := Composed.commaSeparated (.cons hleft (.cons hright .nil))
      have hfunction : SupportLibrary.remainderFunction ∈ leadingWords := by
        simp [SupportLibrary.remainderFunction, leadingWords]
      simpa [Node.valueNames] using hlist.parenthesized.after _ hfunction
    · simp only [bind_eq_ok_iff, pure_eq_ok_iff] at h
      obtain ⟨first, hfirst, second, hsecond, rfl⟩ := h
      have hleft := composed_expression hnames hmem.2.1 hfirst
      have hright := composed_expression hnames hmem.2.2 hsecond
      exact composed_binaryText setting hmem.1 hleft hright
  | unary _ operator argument =>
    simp only [Node.mentions, List.cons_subset] at hmem
    simp only [expression, bind_eq_ok_iff, pure_eq_ok_iff] at h
    obtain ⟨content, hcontent, rfl⟩ := h
    have hargument := composed_expression hnames hmem.2 hcontent
    exact composed_unaryText hmem.1 hargument
  | call _ callee arguments =>
    simp only [Node.mentions, List.append_subset] at hmem
    simp only [expression, bind_eq_ok_iff, pure_eq_ok_iff] at h
    obtain ⟨head, hhead, texts, htexts, rfl⟩ := h
    have hcallee : Composed stock true head (calleeNames callee callee.valueNames) := by
      cases callee with
      | identifier _ name =>
        simp only [Node.mentions, List.cons_subset] at hmem
        cases hhead
        exact hnames.callee name hmem.1.1
      | _ =>
        simp only [calleeText, bind_eq_ok_iff, pure_eq_ok_iff] at hhead
        obtain ⟨_, -, content, hcontent, rfl⟩ := hhead
        exact (composed_expression hnames hmem.1 hcontent).objectText _
    obtain ⟨_, hlist⟩ := Composed.commaSeparated (composed_expressions hnames hmem.2 htexts)
    rw [Node.valueNames, valueNamesList_eq_flatMap]
    exact hcallee.append hlist.parenthesized
  | member _ object property =>
    simp only [Node.mentions, List.cons_subset] at hmem
    simp only [expression, bind_eq_ok_iff, pure_eq_ok_iff] at h
    obtain ⟨_, -, content, hcontent, rfl⟩ := h
    have hobject := (composed_expression hnames hmem.2 hcontent).objectText object
    exact (hobject.before ".").append (.name (.mentioned hmem.1))
  | index _ object position =>
    simp only [Node.mentions, List.append_subset] at hmem
    simp only [expression, bind_eq_ok_iff, pure_eq_ok_iff] at h
    obtain ⟨_, -, content, hcontent, offset, hoffset, rfl⟩ := h
    have hobject := (composed_expression hnames hmem.1 hcontent).objectText object
    have hposition := composed_expression hnames hmem.2 hoffset
    exact ((hobject.before "[").append hposition).before "]"
  | slice _ object lower upper =>
    simp only [Node.mentions, List.append_subset] at hmem
    simp only [expression, bind_eq_ok_iff, pure_eq_ok_iff] at h
    obtain ⟨_, -, content, hcontent, first, hfirst, last, hlast, rfl⟩ := h
    have hobject := (composed_expression hnames hmem.1.1 hcontent).objectText object
    have hlower := composed_boundText hnames hmem.1.2 hfirst hobject ".begin()"
    have hupper := composed_boundText hnames hmem.2 hlast hobject ".end()"
    exact composed_sliceText hobject hlower hupper
  | literal _ value =>
    simp only [Node.mentions, List.cons_subset] at hmem
    cases h
    exact .literal hmem.1
  | identifier _ name =>
    simp only [Node.mentions, List.cons_subset] at hmem
    cases h
    exact hnames.reference name hmem.1
  | array _ elements =>
    simp only [expression, bind_eq_ok_iff, pure_eq_ok_iff] at h
    obtain ⟨texts, htexts, rfl⟩ := h
    obtain ⟨_, hlist⟩ := Composed.commaSeparated (composed_expressions hnames hmem htexts)
    rw [Node.valueNames, valueNamesList_eq_flatMap]
    exact hlist.braces
  | _ => cases h
termination_by structural node

/-- What the expressions of a list are made of. -/
theorem composed_expressions {names : Naming} (hnames : names.Shows stock) {nodes : List Node}
    {texts : List String} (hmem : mentionsList nodes ⊆ stock.mentioned)
    (h : expressions names nodes = .ok texts) :
    List.Forall₂ (fun text node => Composed stock true text node.valueNames) texts nodes := by
  cases nodes with
  | nil => cases h; exact .nil
  | cons node rest =>
    simp only [mentionsList, List.append_subset] at hmem
    simp only [expressions, bind_eq_ok_iff, pure_eq_ok_iff] at h
    obtain ⟨text, htext, texts, htexts, rfl⟩ := h
    exact .cons (composed_expression hnames hmem.1 htext)
      (composed_expressions hnames hmem.2 htexts)
termination_by structural nodes

/-- What a bound of a slice is made of. -/
theorem composed_boundText {names : Naming} (hnames : names.Shows stock) {node? : Option Node}
    {bound : Option String} (hmem : mentions? node? ⊆ stock.mentioned)
    (h : expression? names node? = .ok bound) {object : String} {inner : List String}
    (hobject : Composed stock true object inner) (end_ : String)
    (hend : end_ ∈ connectives := by simp [connectives]) :
    Composed stock true (boundText object end_ bound) (inner ++ valueNames? node?) := by
  cases node? with
  | none =>
    cases h
    exact hobject.append (.connective end_ hend)
  | some node =>
    simp only [expression?, bind_eq_ok_iff, pure_eq_ok_iff] at h
    obtain ⟨offset, hoffset, rfl⟩ := h
    have hnode := composed_expression hnames hmem hoffset
    exact (hobject.before ".begin() + ").append hnode
termination_by structural node?

end

/-! ## Types -/

/-- The names that the core of a type shows. The primitive types are words, unless the program has a
structure of that name. -/
def coreNames (registry : Registry) (core : String) : List String :=
  if core = "" then []
  else if registry.isRecord (mangle core) then [core]
  else if (Primitive.ofName? core).isSome then []
  else [core]

/-- The names that a type shows, given its annotation if there is one. -/
def typeNames (registry : Registry) : Option String → List String
  | none => []
  | some type => coreNames registry (coreName type)

theorem composed_coreCpp (registry : Registry) {type : String}
    (hmem : .type type ∈ stock.mentioned) :
    Composed stock true (TypeTerm.coreCpp registry stock.namespaceName (coreName type))
      (coreNames registry (coreName type)) := by
  rw [TypeTerm.coreCpp, coreNames, Primitive.cppOfName?]
  by_cases hblank : coreName type = ""
  · rw [if_pos (by simp [hblank]), if_pos hblank]
    exact .word _ (by simp [inferredType, leadingWords])
  · have hname : Composed stock true (mangle (coreName type)) [coreName type] :=
      .name (.annotated hmem hblank)
    rw [if_neg (by simpa using hblank), if_neg hblank]
    split
    · exact .append .qualifier hname
    · cases Primitive.ofName? (coreName type) with
      | none => exact hname
      | some primitive => cases primitive <;> exact .word _ (by simp [Primitive.cpp, leadingWords])

theorem Composed.wrapped {text : String} {written : List String} (wrapper : Wrapper)
    (h : Composed stock true text written) : Composed stock true (wrapper.cpp text) written := by
  have htemplate : ∀ template ∈ leadingWords,
      Composed stock true (template ++ "<" ++ text ++ ">") written := fun template hword =>
    (((Composed.word template hword).before "<").append h).before ">"
  cases wrapper with
  | array => exact htemplate _ (by simp [SupportLibrary.arrayType, leadingWords])
  | pointer => exact htemplate _ (by simp [SupportLibrary.pointerType, leadingWords])
  | reference => exact h.before "&"

theorem Setup.shows_naming (setup : Setup) (mentioned : List Mention) (site : Site) :
    (setup.naming site).Shows (setup.stock mentioned) :=
  shows_lexicalNaming _ site

variable (setup : Setup) {mentioned : List Mention}

/-- What a type is made of. -/
theorem composed_typeText {type : Option String}
    (hmem : ∀ text ∈ type, .type text ∈ mentioned) :
    Composed (setup.stock mentioned) true (Render.typeText setup type)
      (typeNames setup.registry type) := by
  cases type with
  | none => exact .word _ (by simp [Render.typeText, inferredType, leadingWords])
  | some text =>
    have hmem : .type text ∈ (setup.stock mentioned).mentioned := hmem text rfl
    have hcore := composed_coreCpp setup.registry hmem
    simp only [typeNames, coreName, Render.typeText, cppType] at hcore ⊢
    generalize TypeTerm.parse text.toList = term at hcore ⊢
    induction term with
    | wrapped wrapper inner ih => exact (ih hcore).wrapped wrapper
    | core name => exact hcore

/-- The names that a parameter or a field shows. -/
def TypedName.names (registry : Registry) (entry : TypedName) : List String :=
  typeNames registry (some entry.type) ++ [entry.name]

theorem composed_typedNameText {entry : TypedName} (hmem : entry.mentions ⊆ mentioned) :
    Composed (setup.stock mentioned) true (Render.typedNameText setup entry)
      (entry.names setup.registry) := by
  simp only [TypedName.mentions, List.cons_subset] at hmem
  have htyped : ∀ text ∈ some entry.type, .type text ∈ mentioned := by
    simpa using hmem.2.1
  have htype := composed_typeText setup htyped
  exact (htype.before " ").append (.name (.mentioned hmem.1))

end TreeToCpp
