import TreeToCpp.Proofs.Nesting
import TreeToCpp.Proofs.Variation

/-!
# What the options change

The options concern layout and the name of one namespace. Whether a program has a text, and why it
has none, does not depend on them. If it has one, then it has one for all options, and this file
says how the texts differ: by the spaces at the beginning of the lines, by the banner in front, by
what stands in the places of the namespace, and by one line for each function and each method.

The namespace has one more influence. Between a sign and its argument there are parentheses if the
argument begins with the same sign, and an argument may begin with the namespace. So the places of
the namespace are the same for all namespaces that begin with a plus sign, for all that begin with a
minus sign, and for all others.

## Main definitions

* `unindented` — the lines of a text without their margins
* `Interleaved` — two lists that make up a third one
* `leadingSign` — the sign that a text begins with
* `Spliced` — a family of texts in which only what fills the places of the namespace differs
* `docLines` — the comments in front of functions and methods
* `DifferInLayout` — texts of one program under all options

## Main results

* `unindented_linesText` — margins
* `LinesAlike.interleaved` — comments
* `Spliced.isKinship`, `LinesAlike.spliced` — places of the namespace
* `renderProgram_configuration` — programs
-/

namespace TreeToCpp

variable {ι : Type}

/-! ## Lines and margins -/

/-- The lines of a text. -/
def textLines (text : String) : List (List Char) :=
  text.toList.splitOn '\n'

/-- The lines of a text without the spaces that they begin with. -/
def unindented (text : String) : List (List Char) :=
  (textLines text).map (·.dropWhile (· == ' '))

/-- A line of code with its margin and without the line feed at its end. -/
def Line.row (width : Nat) : Line → List Char
  | .blank => []
  | .code depth content => List.replicate (depth * width) ' ' ++ content.toList

/-- What a line holds may go over line breaks, since names and paths may. -/
theorem splitOn_linesText_cons (width : Nat) (line : Line) (rest : List Line) :
    (linesText width (line :: rest)).splitOn '\n' =
      (line.row width).splitOn '\n' ++ (linesText width rest).splitOn '\n' := by
  have htext : linesText width (line :: rest) = line.row width ++ '\n' :: linesText width rest := by
    cases line <;> simp [linesText, Line.row, Line.text]
  rw [htext, List.splitOn_append_cons_self]

theorem splitOn_margin (count : Nat) (text : List Char) :
    ((List.replicate count ' ' ++ text).splitOn '\n').map (·.dropWhile (· == ' ')) =
      (text.splitOn '\n').map (·.dropWhile (· == ' ')) := by
  induction count with
  | zero => rfl
  | succ count ih =>
    rw [List.replicate_succ, List.cons_append, List.splitOn_cons_eq_if_modifyHead,
      if_neg (by decide), ← ih]
    cases (List.replicate count ' ' ++ text).splitOn '\n' <;> simp

/-- Without margins, the text of some lines does not depend on the width of a level. -/
theorem unindented_linesText (width width' : Nat) (lines : List Line) :
    ((linesText width lines).splitOn '\n').map (·.dropWhile (· == ' ')) =
      ((linesText width' lines).splitOn '\n').map (·.dropWhile (· == ' ')) := by
  induction lines with
  | nil => rfl
  | cons line rest ih =>
    rw [splitOn_linesText_cons, splitOn_linesText_cons, List.map_append, List.map_append, ih]
    cases line with
    | blank => rfl
    | code depth content => simp only [Line.row, splitOn_margin]

/-! ## Comments -/

/-- Two lists make up a third one, in which each of them keeps its order. -/
inductive Interleaved {α : Type} : (first second whole : List α) → Prop
  | nil : Interleaved [] [] []
  | first {item first second whole} :
      Interleaved first second whole → Interleaved (item :: first) second (item :: whole)
  | second {item first second whole} :
      Interleaved first second whole → Interleaved first (item :: second) (item :: whole)

namespace Interleaved

variable {α β : Type} {first first' second second' whole whole' : List α}

theorem append (h : Interleaved first second whole) (h' : Interleaved first' second' whole') :
    Interleaved (first ++ first') (second ++ second') (whole ++ whole') := by
  induction h with
  | nil => exact h'
  | first _ ih => exact .first ih
  | second _ ih => exact .second ih

theorem nil_left (items : List α) : Interleaved [] items items := by
  induction items with
  | nil => exact .nil
  | cons item rest ih => exact .second ih

end Interleaved

/-- Setups that differ in whether they ask for comments, and in nothing else. -/
theorem LinesAlike.interleaved {commented : ι → Bool} {lines : ι → List Line} {comments : List Line}
    (h : LinesAlike Constant commented lines comments) {i j : ι} (hi : commented i = false)
    (hj : commented j = true) : Interleaved comments (lines i) (lines j) := by
  induction h with
  | nil => exact .nil
  | blank => exact .nil_left _
  | code depth hcontent =>
    simp only [hcontent i j]
    exact .nil_left _
  | comment line =>
    simp only [hi, hj]
    exact .first .nil
  | append _ _ hfirst hrest => exact hfirst.append hrest

/-- Lines that go over no line break are lines of the text as well. -/
theorem Interleaved.linesText {width : Nat} {comments rest whole : List Line}
    (h : Interleaved comments rest whole)
    (hcomments : ∀ comment ∈ comments, '\n' ∉ comment.row width) :
    Interleaved (comments.map (Line.row width)) ((linesText width rest).splitOn '\n')
      ((linesText width whole).splitOn '\n') := by
  induction h with
  | nil => exact .nil_left _
  | @first comment _ _ _ _ ih =>
    obtain ⟨hcomment, hothers⟩ := List.forall_mem_cons.mp hcomments
    rw [splitOn_linesText_cons, List.splitOn_eq_singleton hcomment]
    exact .first (ih hothers)
  | second _ ih =>
    rw [splitOn_linesText_cons, splitOn_linesText_cons]
    exact (Interleaved.nil_left _).append (ih hcomments)

/-! ## Places of the namespace -/

/-- The sign that a text begins with, if it begins with one. -/
def leadingSign (text : String) : Option Char :=
  text.toList.head?.filter fun c => c == '-' || c == '+'

theorem leadingSign_append {text : String} (h : text ≠ "") (rest : String) :
    leadingSign (text ++ rest) = leadingSign text := by
  cases hchars : text.toList with
  | nil => exact absurd (String.toList_inj.mp hchars) h
  | cons => simp [leadingSign, hchars]

/-- Colons are no sign. -/
theorem leadingSign_qualified (namespaceName rest : String) :
    leadingSign (namespaceName ++ "::" ++ rest) = leadingSign namespaceName := by
  by_cases h : namespaceName = ""
  · subst h
    simp [leadingSign]
  · rw [String.append_assoc, leadingSign_append h]

/-- The sign at its beginning is all that matters about an argument. -/
theorem runsTogether_eq (operator argument : String) :
    runsTogether operator argument = operator.toList.getLast?.any fun last =>
      (last == '-' || last == '+') && leadingSign argument == some last := by
  rw [runsTogether, leadingSign]
  cases operator.toList.getLast? with
  | none => rfl
  | some last =>
    cases argument.toList.head? with
    | none => simp
    | some first =>
      rw [Bool.eq_iff_iff]
      simp only [Option.any_some, Bool.and_eq_true, beq_iff_eq, Option.filter_eq_some_iff,
        Option.some.injEq]
      constructor
      · rintro ⟨rfl, hlast⟩
        exact ⟨hlast, rfl, hlast⟩
      · rintro ⟨hlast, rfl, -⟩
        exact ⟨rfl, hlast⟩

/-- A text with places that are filled in. -/
def fill (template : List (Option String)) (filling : String) : String :=
  String.join (template.map (·.getD filling))

/-- The pieces between the places of a template, when some text has been met already. -/
def pieces (met : String) : List (Option String) → List String
  | [] => [met]
  | none :: rest => met :: pieces "" rest
  | some text :: rest => pieces (met ++ text) rest

theorem pieces_ne_nil (met : String) (template : List (Option String)) :
    pieces met template ≠ [] := by
  induction template generalizing met with
  | nil => simp [pieces]
  | cons part rest ih => cases part <;> simp [pieces, ih]

theorem intercalate_pieces (filling met : String) (template : List (Option String)) :
    filling.intercalate (pieces met template) = met ++ fill template filling := by
  induction template generalizing met with
  | nil => simp [pieces, fill]
  | cons part rest ih =>
    cases part with
    | none =>
      rw [pieces, String.intercalate_cons_of_ne_nil (pieces_ne_nil _ _), ih]
      simp [fill, String.append_assoc]
    | some text =>
      rw [pieces, ih]
      simp [fill, String.append_assoc]

/-- A family of texts that are the same up to what fills some places, and in which whether a text
begins with a sign is the same for all. -/
structure Spliced (filling : ι → String) (text : ι → String) : Prop where
  template : ∃ template, ∀ i, text i = fill template (filling i)
  front : (∀ i, text i = "") ∨ ∃ sign, ∀ i rest, leadingSign (text i ++ rest) = sign

namespace Spliced

variable {filling first rest : ι → String}

theorem const (text : String) : Spliced filling fun _ => text := by
  refine ⟨⟨[some text], fun i => by simp [fill]⟩, ?_⟩
  by_cases h : text = ""
  · exact .inl fun _ => h
  · exact .inr ⟨leadingSign text, fun _ => leadingSign_append h⟩

theorem append (hfirst : Spliced filling first) (hrest : Spliced filling rest) :
    Spliced filling fun i => first i ++ rest i := by
  obtain ⟨⟨template, htemplate⟩, hfront⟩ := hfirst
  obtain ⟨⟨template', htemplate'⟩, hfront'⟩ := hrest
  refine ⟨⟨template ++ template', fun i => by simp [fill, htemplate, htemplate']⟩, ?_⟩
  rcases hfront with hempty | ⟨sign, hsign⟩
  · simpa [hempty] using hfront'
  · exact .inr ⟨sign, fun i behind => by rw [String.append_assoc, hsign]⟩

theorem leadingSign_eq (h : Spliced filling first) : ∃ sign, ∀ i, leadingSign (first i) = sign := by
  rcases h.front with hempty | ⟨sign, hsign⟩
  · exact ⟨leadingSign "", fun i => by rw [hempty i]⟩
  · exact ⟨sign, fun i => by simpa using hsign i ""⟩

theorem isKinship : IsKinship (Spliced filling) where
  const := const
  append := append
  unary operator argument h := by
    obtain ⟨sign, hsign⟩ := h.leadingSign_eq
    simp only [unaryText, runsTogether_eq, hsign]
    split
    · exact (const operator).append (((const "(").append h).append (const ")"))
    · exact (const operator).append h

/-- The filling behind a text. -/
theorem behind {text : String} (h : text ≠ "") : Spliced filling fun i => text ++ filling i where
  template := ⟨[some text, none], fun i => by simp [fill]⟩
  front := .inr ⟨leadingSign text, fun i rest => by
    rw [String.append_assoc, leadingSign_append h]⟩

/-- The filling in front of two colons and a name. -/
theorem qualified {sign : Option Char} (h : ∀ i, leadingSign (filling i) = sign) (name : String) :
    Spliced filling fun i => filling i ++ "::" ++ name where
  template := ⟨[none, some ("::" ++ name)], fun i => by simp [fill, String.append_assoc]⟩
  front := .inr ⟨sign, fun i rest => by rw [String.append_assoc, leadingSign_qualified, h i]⟩

end Spliced

/-- The text of lines that agree up to the namespace agrees up to the namespace. -/
theorem LinesAlike.spliced {filling : ι → String} {asked : Bool} {lines : ι → List Line}
    {comments : List Line} (h : LinesAlike (Spliced filling) (fun _ => asked) lines comments)
    (width : Nat) :
    Spliced filling fun i => String.join ((lines i).map (Line.text width 0)) := by
  induction h with
  | nil => exact .const _
  | blank => exact .const _
  | code depth hcontent =>
    simp only [List.map_cons, List.map_nil, Line.text, String.join_cons, String.join_nil]
    exact (((Spliced.const _).append hcontent).append (.const _)).append (.const _)
  | comment line => exact .const _
  | append _ _ hfirst hrest =>
    simp only [List.map_append, String.join_append]
    exact hfirst.append hrest

/-! ## Programs -/

/-- The functions and the methods of a program, with the levels of their lines. -/
def documented (body : List Node) : List (Nat × String) :=
  body.flatMap fun
    | .functionDecl _ name .. => [(1, name)]
    | .structDecl _ _ _ methods =>
      methods.flatMap fun
        | .functionDecl _ name .. => [(2, name)]
        | _ => []
    | _ => []

/-- The comments in front of functions and methods, in the order of the source. -/
def docLines (width : Nat) (body : List Node) : List (List Char) :=
  (documented body).map fun (level, name) =>
    List.replicate (level * width) ' ' ++ ("/** @brief " ++ mangle name ++ " */").toList

theorem comments_eq (body : List Node) :
    Outline.comments body = (documented body).map fun (level, name) =>
      .code level ("/** @brief " ++ mangle name ++ " */") := by
  have hmethod : ∀ node, ((Outline.methodComments node).map Line.deeper).map Line.deeper =
      (match node with
        | .functionDecl _ name .. => [(2, name)]
        | _ => []).map fun (level, name) =>
          Line.code level ("/** @brief " ++ mangle name ++ " */") := fun node => by
    cases node <;> rfl
  rw [Outline.comments, documented, List.map_flatMap, List.map_flatMap]
  congr 1
  funext node
  cases node with
  | structDecl _ _ _ methods =>
    simp only [Outline.declarationComments, List.map_flatMap, hmethod]
  | _ => rfl

theorem docLines_eq (width : Nat) (body : List Node) :
    docLines width body = (Outline.comments body).map (Line.row width) := by
  rw [docLines, comments_eq, List.map_map]
  rfl

/-- What is known about the names of the top level while a program is written. -/
def Options.setup (options : Options) (body : List Node) : Setup :=
  { options := options, registry := Registry.ofTopLevel body }

theorem renderProgram_eq_page (options : Options) (body : List Node) :
    renderProgram options body =
      ((Outline.page (options.setup body) (options.setup body).naming body).text
        options.indentWidth).map (Assembly.banner options ++ ·) := by
  have hbanner : (Outline.banner ⟨options, Registry.ofTopLevel body⟩).text options.indentWidth =
      .ok (Assembly.banner options) :=
    Written.text_eq_ok_iff.mpr ((Outline.gives_banner _).mpr rfl)
  rw [renderProgram_eq_text, Outline.sourceFile_eq, Written.text_append, hbanner]
  rfl

/-- Options that differ in nothing that agrees less than `kin` asks for. -/
theorem filesAlike_of_options {options : ι → Options} {kin : (ι → String) → Prop}
    (hkin : IsKinship kin)
    (hbehind : ∀ text, text ≠ "" → kin fun i => text ++ (options i).namespaceName)
    (hqualified : ∀ name, kin fun i => (options i).namespaceName ++ "::" ++ name)
    (body : List Node) :
    FilesAlike kin (fun i => (options i).setup body) fun i => ((options i).setup body).naming := by
  have hkind : ∀ i, ((options i).setup body).registry.kindOf = (Registry.ofTopLevel body).kindOf :=
    fun _ => rfl
  exact filesAlike_of_kindOf hkin hkind hbehind hqualified

/-- The text of a file with given lines behind its banner. -/
def layOut (options : Options) (lines : List Line) : String :=
  Assembly.banner options ++ String.join (lines.map (Line.text options.indentWidth 0))

/-- The lines behind the banner under all options, where they are all there. -/
def IsPages (body : List Node) (lines : Options → List Line) : Prop :=
  ∀ options, Outline.page (options.setup body) (options.setup body).naming body =
    { lines := lines options, outcome := .ok () }

/-- A program is refused under all options for the same reason, or it has all its lines under all
options. -/
theorem error_or_isPages (body : List Node) :
    (∃ error, ∀ options, renderProgram options body = .error error) ∨
      ∃ lines, IsPages body lines := by
  have hfiles : FilesAlike (fun _ => True) (fun options : Options => options.setup body)
      fun options => (options.setup body).naming :=
    filesAlike_of_options isKinship_true (fun _ _ => trivial) (fun _ => trivial) body
  rcases Outline.alike_page hfiles body with ⟨error, herror⟩ | ⟨lines, -, hlines⟩
  · refine .inl ⟨error, fun options => ?_⟩
    rw [renderProgram_eq_page, Written.text, herror options]
    rfl
  · exact .inr ⟨lines, hlines⟩

namespace IsPages

variable {body : List Node} {lines : Options → List Line} (h : IsPages body lines)

include h

theorem renderProgram_eq (options : Options) :
    renderProgram options body = .ok (layOut options (lines options)) := by
  rw [renderProgram_eq_page, h options]
  rfl

/-- The lines correspond to each other as far as the places of the namespace do. -/
theorem linesAlike [Nonempty ι] {options : ι → Options} {kin : (ι → String) → Prop}
    (hkin : IsKinship kin)
    (hbehind : ∀ text, text ≠ "" → kin fun i => text ++ (options i).namespaceName)
    (hqualified : ∀ name, kin fun i => (options i).namespaceName ++ "::" ++ name) :
    LinesAlike kin (fun i => (options i).docComments) (fun i => lines (options i))
      (Outline.comments body) :=
  (Outline.alike_page (filesAlike_of_options hkin hbehind hqualified body) body).linesAlike
    fun i => h (options i)

/-- Under the same namespace, all lines are the same up to the comments. -/
theorem linesAlike_constant {options options' : Options}
    (hspace : options.namespaceName = options'.namespaceName) :
    LinesAlike Constant (fun second => (cond second options' options).docComments)
      (fun second => lines (cond second options' options)) (Outline.comments body) := by
  have hsame : ∀ second, (cond second options' options).namespaceName = options.namespaceName :=
    fun second => by cases second <;> simp [hspace]
  exact h.linesAlike isKinship_constant (fun _ _ i j => by simp only [hsame])
    fun _ i j => by simp only [hsame]

/-- The lines depend on the namespace and on whether there are comments. -/
theorem eq_of_options {options options' : Options}
    (hspace : options.namespaceName = options'.namespaceName)
    (hcomments : options.docComments = options'.docComments) : lines options = lines options' :=
  (h.linesAlike_constant hspace).eq_of_constant (i := false) (j := true) hcomments

/-- With comments, there is one more line for each of them. -/
theorem interleaved (options : Options) :
    Interleaved (Outline.comments body) (lines { options with docComments := false })
      (lines { options with docComments := true }) := by
  have hspace : { options with docComments := false }.namespaceName =
      { options with docComments := true }.namespaceName := rfl
  exact (h.linesAlike_constant hspace).interleaved (i := false) (j := true) rfl rfl

/-- What changes with a namespace that begins with the same sign is what fills its places. -/
theorem spliced (options : Options) :
    Spliced (fun other : { name // leadingSign name = leadingSign options.namespaceName } => ↑other)
      fun other => layOut { options with namespaceName := other }
        (lines { options with namespaceName := other }) := by
  let others (other : { name // leadingSign name = leadingSign options.namespaceName }) : Options :=
    { options with namespaceName := other }
  have : Nonempty { name // leadingSign name = leadingSign options.namespaceName } :=
    ⟨options.namespaceName, rfl⟩
  have hlines : LinesAlike (Spliced fun other => (others other).namespaceName) _ _ _ :=
    h.linesAlike Spliced.isKinship (fun _ => .behind) (.qualified Subtype.property)
  exact (Spliced.const (Assembly.banner options)).append (hlines.spliced options.indentWidth)

end IsPages

/-- The banner ends with a line feed, so the lines behind it are lines of the text. -/
theorem textLines_layOut (options : Options) :
    ∃ front, ∀ width lines, textLines (layOut { options with indentWidth := width } lines) =
      front ++ (linesText width lines).splitOn '\n' := by
  have htext : ∀ width lines, textLines (layOut { options with indentWidth := width } lines) =
      ((Assembly.banner options).toList ++ linesText width lines).splitOn '\n' :=
    fun width lines => by
      rw [textLines, layOut, String.toList_append, toList_join_text]
      rfl
  simp only [htext]
  cases hasked : options.banner with
  | false => exact ⟨[], fun _ _ => by simp [Assembly.banner, hasked]⟩
  | true =>
    let front :=
      "/**\n * @file output.cpp\n * @brief Generated by Fax-lang Polyglot Compiler\n */\n"
    have hbanner : Assembly.banner options = front ++ "\n" := by
      rw [Assembly.banner, if_pos hasked]
      rfl
    refine ⟨front.toList.splitOn '\n', fun width lines => ?_⟩
    rw [hbanner, String.toList_append, List.append_assoc, ← List.splitOn_append_cons_self]
    rfl

/-- No function and no method has a name that goes over a line break. -/
def NamesOnOneLine (body : List Node) : Prop :=
  ∀ entry ∈ documented body, '\n' ∉ entry.2.toList

theorem NamesOnOneLine.comments {body : List Node} (h : NamesOnOneLine body) (width : Nat) :
    ∀ comment ∈ Outline.comments body, '\n' ∉ comment.row width := by
  rw [comments_eq, List.forall_mem_map]
  intro entry hentry
  have hname : '\n' ∉ (mangle entry.2).toList := by
    rw [mangle]
    split <;> simp [escapeSuffix, h entry hentry]
  simp [Line.row, hname]

/-- How the texts of a program under all options differ. -/
structure DifferInLayout (body : List Node) (text : Options → String) : Prop where
  /-- Without margins, the width of a level is not seen. -/
  indentWidth : ∀ (options : Options) width,
    unindented (text { options with indentWidth := width }) = unindented (text options)
  banner : ∀ options : Options, text { options with banner := true } =
    "/**\n * @file output.cpp\n * @brief Generated by Fax-lang Polyglot Compiler\n */\n\n" ++
      text { options with banner := false }
  /-- The places of the namespace are the same for all that begin with the same sign. -/
  namespaceName : ∀ options : Options, ∃ pieces : List String, ∀ other,
    leadingSign other = leadingSign options.namespaceName →
    text { options with namespaceName := other } = other.intercalate pieces
  /-- Comments are lines of their own. -/
  docComments : NamesOnOneLine body → ∀ options : Options,
    Interleaved (docLines options.indentWidth body)
      (textLines (text { options with docComments := false }))
      (textLines (text { options with docComments := true }))

theorem IsPages.differInLayout {body : List Node} {lines : Options → List Line}
    (h : IsPages body lines) :
    DifferInLayout body fun options => layOut options (lines options) where
  indentWidth options width := by
    obtain ⟨front, hfront⟩ := textLines_layOut options
    have hlines : lines { options with indentWidth := width } = lines options :=
      h.eq_of_options rfl rfl
    rw [unindented, unindented, hlines, hfront, hfront options.indentWidth, List.map_append,
      List.map_append, unindented_linesText width options.indentWidth]
  banner options := by
    have hlines : lines { options with banner := true } = lines { options with banner := false } :=
      h.eq_of_options rfl rfl
    simp only [layOut, hlines, Assembly.banner]
    rfl
  namespaceName options := by
    obtain ⟨template, htemplate⟩ := (h.spliced options).template
    refine ⟨pieces "" template, fun other hother => ?_⟩
    rw [intercalate_pieces, String.empty_append]
    exact htemplate ⟨other, hother⟩
  docComments hnames options := by
    obtain ⟨front, hfront⟩ := textLines_layOut options
    have htext : ∀ lines, textLines (layOut options lines) =
        front ++ (linesText options.indentWidth lines).splitOn '\n' := hfront options.indentWidth
    show Interleaved _ (textLines (layOut options _)) (textLines (layOut options _))
    rw [docLines_eq, htext, htext]
    exact (Interleaved.nil_left front).append
      ((h.interleaved options).linesText (hnames.comments options.indentWidth))

/-- **The options change the layout and the name of the namespace.** A program is refused under all
options for the same reason, or it has a text under all options, and the texts differ in their
margins, in the banner, in what fills the places of the namespace, and in the lines of the
comments. -/
theorem renderProgram_configuration (body : List Node) :
    (∃ error, ∀ options, renderProgram options body = .error error) ∨
      ∃ text : Options → String,
        (∀ options, renderProgram options body = .ok (text options)) ∧
          DifferInLayout body text := by
  rcases error_or_isPages body with herror | ⟨lines, h⟩
  · exact .inl herror
  · exact .inr ⟨_, h.renderProgram_eq, h.differInLayout⟩

/-- What fills the places of a text adds to its size with its own size alone. -/
theorem utf8ByteSize_intercalate_congr {filling filling' : String}
    (h : filling.utf8ByteSize = filling'.utf8ByteSize) (pieces : List String) :
    (filling.intercalate pieces).utf8ByteSize = (filling'.intercalate pieces).utf8ByteSize := by
  induction pieces with
  | nil => rfl
  | cons piece rest ih =>
    cases rest with
    | nil => simp
    | cons next rest =>
      simp only [String.intercalate_cons_cons, String.utf8ByteSize_append, h, ih]

/-- The places of the namespace are not the same for all namespaces. Behind a minus sign, a name of
the top level is in parentheses if the namespace begins with a minus sign. -/
theorem not_same_places_behind_sign :
    let loc : Location := ⟨"", none⟩
    let body : List Node := [
      .variableDecl loc "x" none false (some (.literal loc (.boolean true))),
      .exprStmt loc (.unary loc "-" (.identifier loc "x"))]
    (∀ options, ∃ text, renderProgram options body = .ok text) ∧
      ¬∃ pieces : List String, ∀ namespaceName,
        renderProgram { namespaceName := namespaceName } body =
          .ok (namespaceName.intercalate pieces) := by
  intro loc body
  -- The parentheses make the difference between namespaces of one length.
  have hsizes : (renderProgram { namespaceName := "-a" } body).toOption.map (·.utf8ByteSize) =
      (renderProgram { namespaceName := "aa" } body).toOption.map (·.utf8ByteSize + 2) := by
    decide +kernel
  have hok : (renderProgram {} body).isOk = true := by decide +kernel
  constructor
  · rcases error_or_isPages body with ⟨error, herror⟩ | ⟨lines, h⟩
    · rw [herror] at hok
      cases hok
    · exact fun options => ⟨_, h.renderProgram_eq options⟩
  · rintro ⟨pieces, hpieces⟩
    simp only [hpieces, Except.toOption, Option.map_some, Option.some.injEq,
      utf8ByteSize_intercalate_congr (show "-a".utf8ByteSize = "aa".utf8ByteSize from rfl)]
      at hsizes
    omega

end TreeToCpp
