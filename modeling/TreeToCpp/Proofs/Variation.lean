import TreeToCpp.Proofs.LayingOut

/-!
# One program under many setups

A program can be written under many setups, with other options or with a registry that holds the
same names in another order. What becomes of it under all of them at once is a family: a text, an
outcome or some lines for every index `i : ι`. This file goes through the outline a single time, for
the whole family. Under all setups the walk takes the same way, so it comes to the same outcome, and
the lines correspond to each other one by one. Only the comments in front of functions are written
under some setups and left out under others.

How far the texts of corresponding lines agree depends on the setups, and so on the purpose. They
may have to be equal, or to be equal up to the namespace, or nothing may be asked of them. `kin`
says which families of texts agree. The walk puts texts behind one another and now and then decides
about parentheses by the first character of a text; `IsKinship` asks that families that agree still
do so after that.

## Main definitions

* `IsKinship` — a notion of agreement that the walk respects
* `Alike` — outcomes of several setups that agree
* `LinesAlike`, `WrittenAlike` — lines of several setups that agree, and the comments among them
* `SetupsAlike`, `FilesAlike` — setups that differ in nothing but texts that agree

## Main results

* `alike_expression`, `Outline.alike_statement` — expressions and statements
* `Outline.alike_namespaceItem`, `Outline.alike_entryItem` — nodes of the top level
* `Outline.alike_page`, `Outline.alike_sourceFile` — programs
* `filesAlike_of_kindOf` — setups with the same names of the top level
-/

namespace TreeToCpp

variable {ι α β : Type}

/-! ## Texts that agree -/

/-- The families of texts that are `kin` stay so under what the walk does with texts. -/
structure IsKinship (kin : (ι → String) → Prop) : Prop where
  const : ∀ text, kin fun _ => text
  append : ∀ {first rest : ι → String}, kin first → kin rest → kin fun i => first i ++ rest i
  unary : ∀ operator {argument : ι → String}, kin argument →
    kin fun i => unaryText operator (argument i)

/-- Families of lists of the same length, item by item `kin`. -/
inductive ListsAlike (kin : (ι → String) → Prop) : (ι → List String) → Prop
  | nil : ListsAlike kin fun _ => []
  | cons {first : ι → String} {rest : ι → List String} :
      kin first → ListsAlike kin rest → ListsAlike kin fun i => first i :: rest i

/-- Families of texts that are all absent or all there. -/
inductive OptionsAlike (kin : (ι → String) → Prop) : (ι → Option String) → Prop
  | none : OptionsAlike kin fun _ => none
  | some {text : ι → String} : kin text → OptionsAlike kin fun i => some (text i)

namespace IsKinship

variable {kin : (ι → String) → Prop} (hkin : IsKinship kin) {text : ι → String}

include hkin

/-- A fixed text in front. -/
theorem after (fixed : String) (h : kin text) : kin fun i => fixed ++ text i :=
  hkin.append (hkin.const fixed) h

/-- A fixed text behind. -/
theorem before (h : kin text) (fixed : String) : kin fun i => text i ++ fixed :=
  hkin.append h (hkin.const fixed)

theorem parenthesized (h : kin text) : kin fun i => parenthesized (text i) :=
  hkin.before (hkin.after "(" h) ")"

theorem commaSeparated {texts : ι → List String} (h : ListsAlike kin texts) :
    kin fun i => commaSeparated (texts i) := by
  induction h with
  | nil => exact hkin.const _
  | cons hfirst hrest ih =>
    cases hrest with
    | nil => simpa [TreeToCpp.commaSeparated] using hfirst
    | cons =>
      simp only [TreeToCpp.commaSeparated, String.intercalate_cons_cons] at ih ⊢
      exact hkin.append (hkin.before hfirst _) ih

theorem binaryText (setting : Setting) (operator : String) {left right : ι → String}
    (hleft : kin left) (hright : kin right) :
    kin fun i => binaryText setting operator (left i) (right i) := by
  have htext : kin fun i => left i ++ " " ++ operator ++ " " ++ right i :=
    hkin.append (hkin.before (hkin.before (hkin.before hleft _) _) _) hright
  cases setting with
  | delimited => exact htext
  | operand => exact hkin.parenthesized htext

theorem objectText (object : Node) (h : kin text) : kin fun i => objectText object (text i) := by
  cases object with
  | binary | unary => exact hkin.parenthesized h
  | _ => exact h

theorem boundText (end_ : String) (h : kin text) {bound : ι → Option String}
    (hbound : OptionsAlike kin bound) : kin fun i => boundText (text i) end_ (bound i) := by
  cases hbound with
  | none => exact hkin.before h _
  | some hoffset => exact hkin.append (hkin.before h _) hoffset

theorem sliceText (h : kin text) {lower upper : ι → Option String}
    (hlower : OptionsAlike kin lower) (hupper : OptionsAlike kin upper) :
    kin fun i => sliceText (text i) (lower i) (upper i) := by
  have hhead := hkin.before (hkin.after (SupportLibrary.arrayType ++ "<std::decay_t<decltype(") h)
    ")>::value_type>("
  have hrange := hkin.append (hkin.before (hkin.boundText ".begin()" h hlower) ", ")
    (hkin.boundText ".end()" h hupper)
  have htext := hkin.before (hkin.append hhead hrange) ")"
  simpa only [TreeToCpp.sliceText, String.append_assoc] using htext

end IsKinship

/-! ## Outcomes that agree -/

/-- Outcomes of which all are the same failure, or all are successes with results that agree. -/
def Alike (agree : (ι → α) → Prop) (outcomes : ι → Except RenderError α) : Prop :=
  (∃ error, ∀ i, outcomes i = .error error) ∨
    ∃ results, agree results ∧ ∀ i, outcomes i = .ok (results i)

namespace Alike

variable {agree : (ι → α) → Prop} {agree' : (ι → β) → Prop}

theorem ok {results : ι → α} (h : agree results) : Alike agree fun i => .ok (results i) :=
  .inr ⟨results, h, fun _ => rfl⟩

theorem error {error : RenderError} : Alike agree fun _ => .error error :=
  .inl ⟨error, fun _ => rfl⟩

theorem bind {outcomes : ι → Except RenderError α} {next : ι → α → Except RenderError β}
    (h : Alike agree outcomes)
    (hnext : ∀ results, agree results → Alike agree' fun i => next i (results i)) :
    Alike agree' fun i => outcomes i >>= next i := by
  rcases h with ⟨error, herror⟩ | ⟨results, hresults, hok⟩
  · simp only [herror]
    exact .error
  · simp only [hok]
    exact hnext results hresults

theorem map {outcomes : ι → Except RenderError α} {change : ι → α → β} (h : Alike agree outcomes)
    (hchange : ∀ results, agree results → agree' fun i => change i (results i)) :
    Alike agree' fun i => (outcomes i).map (change i) :=
  h.bind fun results hresults => .ok (hchange results hresults)

/-- A condition on the tree alone is the same under all setups. -/
theorem require (condition : Bool) (node : Node) (place : Misplacement) :
    Alike (fun _ : ι → Unit => True) fun _ => requirePlace condition node place := by
  cases condition with
  | true => exact .ok trivial
  | false => exact .error

end Alike

/-! ## Expressions -/

/-- Ways to write names whose texts agree. -/
structure NamesAlike (kin : (ι → String) → Prop) (names : ι → Naming) : Prop where
  reference : ∀ name, kin fun i => (names i).reference name
  callee : ∀ name, kin fun i => (names i).callee name

/-- The helpers of the support library go by the same name everywhere. -/
theorem NamesAlike.ofReference {kin : (ι → String) → Prop} (hkin : IsKinship kin)
    {reference : ι → String → String} (h : ∀ name, kin fun i => reference i name) :
    NamesAlike kin fun i => .ofReference (reference i) where
  reference := h
  callee name := by
    simp only [Naming.ofReference]
    split
    · exact hkin.const _
    · exact h name

section

variable {kin : (ι → String) → Prop} {names : ι → Naming}

theorem alike_calleeText (hkin : IsKinship kin) (hnames : NamesAlike kin names) (callee : Node)
    {written : ι → Except RenderError String} (hwritten : Alike kin written) :
    Alike kin fun i => calleeText (names i) callee (written i) := by
  cases callee with
  | identifier _ name => exact .ok (hnames.callee name)
  | _ =>
    exact (Alike.require _ _ _).bind fun _ _ =>
      hwritten.bind fun _ htext => .ok (hkin.objectText _ htext)

mutual

theorem alike_expression (hkin : IsKinship kin) (hnames : NamesAlike kin names)
    (setting : Setting) (node : Node) :
    Alike kin fun i => expression (names i) setting node := by
  cases node with
  | assign _ left right =>
    have hleft := alike_expression hkin hnames .delimited left
    have hright := alike_expression hkin hnames .delimited right
    exact hleft.bind fun _ htarget => hright.bind fun _ hvalue =>
      .ok (hkin.append (hkin.before htarget _) hvalue)
  | binary _ operator left right =>
    have hleft := fun setting => alike_expression hkin hnames setting left
    have hright := fun setting => alike_expression hkin hnames setting right
    simp only [expression]
    split
    · refine (hleft _).bind fun _ hdividend => (hright _).bind fun _ hdivisor => .ok ?_
      exact hkin.after _ <| hkin.parenthesized <|
        hkin.commaSeparated (.cons hdividend (.cons hdivisor .nil))
    · exact (hleft _).bind fun _ hfirst => (hright _).bind fun _ hsecond =>
        .ok (hkin.binaryText setting operator hfirst hsecond)
  | unary _ operator argument =>
    have hargument := alike_expression hkin hnames .delimited argument
    exact hargument.bind fun _ htext => .ok (hkin.unary operator htext)
  | call _ callee arguments =>
    have hcallee := alike_expression hkin hnames .delimited callee
    have harguments := alike_expressions hkin hnames arguments
    exact (alike_calleeText hkin hnames callee hcallee).bind fun _ hhead =>
      harguments.bind fun _ htexts =>
        .ok (hkin.append hhead (hkin.parenthesized (hkin.commaSeparated htexts)))
  | member _ object property =>
    have hobject := alike_expression hkin hnames .delimited object
    exact (Alike.require _ _ _).bind fun _ _ => hobject.bind fun _ htext =>
      .ok (hkin.before (hkin.before (hkin.objectText object htext) _) _)
  | index _ object position =>
    have hobject := alike_expression hkin hnames .delimited object
    have hposition := alike_expression hkin hnames .delimited position
    exact (Alike.require _ _ _).bind fun _ _ => hobject.bind fun _ htext =>
      hposition.bind fun _ hoffset =>
        .ok (hkin.before (hkin.append (hkin.before (hkin.objectText object htext) _) hoffset) _)
  | slice _ object lower upper =>
    have hobject := alike_expression hkin hnames .delimited object
    have hlower := alike_expression? hkin hnames lower
    have hupper := alike_expression? hkin hnames upper
    exact (Alike.require _ _ _).bind fun _ _ => hobject.bind fun _ htext =>
      hlower.bind fun _ hfirst => hupper.bind fun _ hlast =>
        .ok (hkin.sliceText (hkin.objectText object htext) hfirst hlast)
  | literal _ value => exact .ok (hkin.const _)
  | identifier _ name => exact .ok (hnames.reference name)
  | array _ elements =>
    have helements := alike_expressions hkin hnames elements
    exact helements.bind fun _ htexts =>
      .ok (hkin.before (hkin.after _ (hkin.commaSeparated htexts)) _)
  | _ => exact .error
termination_by structural node

theorem alike_expressions (hkin : IsKinship kin) (hnames : NamesAlike kin names)
    (nodes : List Node) : Alike (ListsAlike kin) fun i => expressions (names i) nodes := by
  cases nodes with
  | nil => exact .ok .nil
  | cons node rest =>
    have hnode := alike_expression hkin hnames .delimited node
    have hrest := alike_expressions hkin hnames rest
    exact hnode.bind fun _ htext => hrest.bind fun _ htexts => .ok (.cons htext htexts)
termination_by structural nodes

theorem alike_expression? (hkin : IsKinship kin) (hnames : NamesAlike kin names)
    (node? : Option Node) : Alike (OptionsAlike kin) fun i => expression? (names i) node? := by
  cases node? with
  | none => exact .ok .none
  | some node =>
    have hnode := alike_expression hkin hnames .delimited node
    exact hnode.bind fun _ htext => .ok (.some htext)
termination_by structural node?

end

end

/-! ## Lines that agree -/

/-- Families of lines that correspond to each other, with the comments among them. A comment stands
there under the setups that are `commented`. -/
inductive LinesAlike (kin : (ι → String) → Prop) (commented : ι → Bool) :
    (ι → List Line) → List Line → Prop
  | nil : LinesAlike kin commented (fun _ => []) []
  | blank : LinesAlike kin commented (fun _ => [.blank]) []
  | code (depth : Nat) {content : ι → String} :
      kin content → LinesAlike kin commented (fun i => [.code depth (content i)]) []
  | comment (line : Line) :
      LinesAlike kin commented (fun i => if commented i then [line] else []) [line]
  | append {first rest : ι → List Line} {before behind : List Line} :
      LinesAlike kin commented first before → LinesAlike kin commented rest behind →
      LinesAlike kin commented (fun i => first i ++ rest i) (before ++ behind)

/-- Writings of several setups that agree: all stop with the same failure, or all come to their end
and their lines correspond to each other. -/
def WrittenAlike (kin : (ι → String) → Prop) (commented : ι → Bool) (written : ι → Written)
    (comments : List Line) : Prop :=
  (∃ error, ∀ i, (written i).outcome = .error error) ∨
    ∃ lines, LinesAlike kin commented lines comments ∧
      ∀ i, written i = { lines := lines i, outcome := .ok () }

section

variable {kin : (ι → String) → Prop} {commented : ι → Bool}

theorem LinesAlike.deeper {lines : ι → List Line} {comments : List Line}
    (h : LinesAlike kin commented lines comments) :
    LinesAlike kin commented (fun i => (lines i).map Line.deeper) (comments.map Line.deeper) := by
  induction h with
  | nil => exact .nil
  | blank => exact .blank
  | code depth hcontent => exact .code (depth + 1) hcontent
  | comment line =>
    have hline : ∀ i, (if commented i then [line] else []).map Line.deeper =
        if commented i then [line.deeper] else [] := fun i => by split <;> rfl
    simp only [hline]
    exact .comment line.deeper
  | append _ _ hfirst hrest =>
    simp only [List.map_append]
    exact .append hfirst hrest

namespace WrittenAlike

theorem nothing : WrittenAlike kin commented (fun _ => .nothing) [] :=
  .inr ⟨_, .nil, fun _ => rfl⟩

theorem failure {error : RenderError} {comments : List Line} :
    WrittenAlike kin commented (fun _ => .failure error) comments :=
  .inl ⟨error, fun _ => rfl⟩

theorem blank : WrittenAlike kin commented (fun _ => .blank) [] :=
  .inr ⟨_, .blank, fun _ => rfl⟩

theorem code {content : ι → String} (h : kin content) :
    WrittenAlike kin commented (fun i => .code (content i)) [] :=
  .inr ⟨_, .code 0 h, fun _ => rfl⟩

variable {first rest : ι → Written} {before behind : List Line}

theorem append (hfirst : WrittenAlike kin commented first before)
    (hrest : WrittenAlike kin commented rest behind) :
    WrittenAlike kin commented (fun i => first i ++ rest i) (before ++ behind) := by
  rcases hfirst with ⟨error, herror⟩ | ⟨lines, hlines, hok⟩
  · refine .inl ⟨error, fun i => ?_⟩
    simp only [Written.append_of_error (herror i), herror i]
  · have happend : ∀ i, first i ++ rest i =
        { lines := lines i ++ (rest i).lines, outcome := (rest i).outcome } := fun i => by
      rw [hok i, Written.append_of_ok rfl]
    rcases hrest with ⟨error, herror⟩ | ⟨lines', hlines', hok'⟩
    · refine .inl ⟨error, fun i => ?_⟩
      simp only [happend i, herror i]
    · refine .inr ⟨fun i => lines i ++ lines' i, .append hlines hlines', fun i => ?_⟩
      show first i ++ rest i = _
      rw [happend i, hok' i]

theorem deeper (h : WrittenAlike kin commented first before) :
    WrittenAlike kin commented (fun i => (first i).deeper) (before.map Line.deeper) := by
  rcases h with ⟨error, herror⟩ | ⟨lines, hlines, hok⟩
  · exact .inl ⟨error, herror⟩
  · refine .inr ⟨_, hlines.deeper, fun i => ?_⟩
    simp only [hok i, Written.deeper]

theorem withText {text : ι → Except RenderError String} {write : ι → String → Written}
    (htext : Alike kin text)
    (hwrite : ∀ content, kin content →
      WrittenAlike kin commented (fun i => write i (content i)) before) :
    WrittenAlike kin commented (fun i => .withText (text i) (write i)) before := by
  rcases htext with ⟨error, herror⟩ | ⟨content, hcontent, hok⟩
  · simp only [herror]
    exact .failure
  · simp only [hok]
    exact hwrite content hcontent

theorem each {write : ι → α → Written} {comments : α → List Line} {items : List α}
    (h : ∀ item ∈ items, WrittenAlike kin commented (fun i => write i item) (comments item)) :
    WrittenAlike kin commented (fun i => .each (write i) items) (items.flatMap comments) := by
  induction items with
  | nil => exact .nothing
  | cons item rest ih =>
    have hitem := h item List.mem_cons_self
    have hrest := ih fun other hother => h other (List.mem_cons_of_mem _ hother)
    exact hitem.append hrest

/-- Items that come without comments. -/
theorem each_nil {write : ι → α → Written} {items : List α}
    (h : ∀ item ∈ items, WrittenAlike kin commented (fun i => write i item) []) :
    WrittenAlike kin commented (fun i => .each (write i) items) [] := by
  have heach := each h
  rwa [List.flatMap_eq_nil_iff.mpr fun _ _ => rfl] at heach

end WrittenAlike

end

/-- Where all writings come to their end, their lines correspond to each other. -/
theorem WrittenAlike.linesAlike {kin : (ι → String) → Prop} {commented : ι → Bool} [Nonempty ι]
    {written : ι → Written} {comments : List Line}
    (h : WrittenAlike kin commented written comments) {lines : ι → List Line}
    (hok : ∀ i, written i = { lines := lines i, outcome := .ok () }) :
    LinesAlike kin commented lines comments := by
  rcases h with ⟨error, herror⟩ | ⟨lines', hlines, hok'⟩
  · obtain ⟨i⟩ := ‹Nonempty ι›
    have hi := herror i
    rw [hok i] at hi
    cases hi
  · have hsame : lines = lines' :=
      funext fun i => congrArg Written.lines ((hok i).symm.trans (hok' i))
    exact hsame ▸ hlines

/-! ## Statements -/

/-- Setups, with their ways to write names, that differ in nothing but texts that agree. -/
structure SetupsAlike (kin : (ι → String) → Prop) (setups : ι → Setup)
    (names : ι → Site → Naming) : Prop where
  kinship : IsKinship kin
  names : ∀ site, NamesAlike kin fun i => names i site
  core : ∀ name, kin fun i =>
    TypeTerm.coreCpp (setups i).registry (setups i).options.namespaceName name

variable {kin : (ι → String) → Prop} {setups : ι → Setup} {names : ι → Site → Naming}
  {commented : ι → Bool}

/-- The wrappers of an annotation stand around the text of its core. -/
theorem SetupsAlike.type (h : SetupsAlike kin setups names) (type : Option String) :
    kin fun i => Render.typeText (setups i) type := by
  cases type with
  | none => exact h.kinship.const _
  | some type =>
    simp only [Render.typeText, cppType]
    induction TypeTerm.parse type.toList with
    | core name => exact h.core name
    | wrapped wrapper inner ih =>
      cases wrapper with
      | array | pointer => exact h.kinship.before (h.kinship.after _ ih) ">"
      | reference => exact h.kinship.before ih "&"

namespace Outline

section

variable (h : SetupsAlike kin setups names)

include h

theorem alike_text (site : Site) (node : Node) : Alike kin fun i => text (names i) site node :=
  alike_expression h.kinship (h.names site) .delimited node

theorem alike_text? (site : Site) (node? : Option Node) :
    Alike kin fun i => text? (names i) site node? := by
  cases node? with
  | none => exact .ok (h.kinship.const _)
  | some node => exact alike_text h site node

theorem alike_variableText (site : Site) (name : String) (type : Option String)
    (isConstant : Bool) (value : Option Node) :
    Alike kin fun i => variableText (setups i) (names i) site name type isConstant value := by
  have hhead : kin fun i => (if isConstant then "const " else "") ++
      Render.typeText (setups i) type ++ " " ++ mangle name :=
    h.kinship.before (h.kinship.before (h.kinship.after _ (h.type type)) _) _
  cases value with
  | none => exact .ok hhead
  | some node =>
    exact (alike_text h _ node).map fun _ hvalue =>
      h.kinship.append (h.kinship.before hhead " = ") hvalue

theorem alike_loopStart (site : Site) (start : Option Node) :
    Alike kin fun i => loopStart (setups i) (names i) site start := by
  cases start with
  | none => exact .ok (h.kinship.const _)
  | some node =>
    cases node with
    | variableDecl _ name type isConstant value => exact alike_variableText h ..
    | exprStmt _ node => exact alike_text h site node
    | assign | binary | unary | call | member | index | slice | literal | identifier | array =>
      exact alike_text h site _
    | _ => exact .error

theorem alike_terminated {content : ι → String} (hcontent : kin content) :
    WrittenAlike kin commented (fun i => terminated (content i)) [] :=
  .code (h.kinship.before hcontent ";")

theorem alike_opening {head : ι → String} (hhead : kin head) :
    WrittenAlike kin commented (fun i => opening (head i)) [] :=
  .code (h.kinship.before hhead " \x7b")

theorem alike_closing : WrittenAlike kin commented (fun _ => closing) [] :=
  .code (h.kinship.const _)

/-- A head, a body one level deeper, and what closes it. -/
theorem alike_body {head : ι → String} (hhead : kin head) {body ending : ι → Written}
    {comments : List Line} (hbody : WrittenAlike kin commented body comments)
    (hending : WrittenAlike kin commented ending []) :
    WrittenAlike kin commented (fun i => opening (head i) ++ (body i).deeper ++ ending i)
      (comments.map Line.deeper) := by
  have hlines := ((alike_opening h hhead).append hbody.deeper).append hending
  rwa [List.nil_append, List.append_nil] at hlines

theorem alike_expressionLine (site : Site) (node : Node) :
    WrittenAlike kin commented (fun i => expressionLine (names i) site node) [] :=
  .withText (alike_text h site node) fun _ => alike_terminated h

end

mutual

theorem alike_statement (h : SetupsAlike kin setups names) (site : Site) (braced : Bool)
    (node : Node) :
    WrittenAlike kin commented (fun i => statement (setups i) (names i) site braced node) [] := by
  cases node with
  | variableDecl _ name type isConstant value =>
    exact .withText (alike_variableText h ..) fun _ => alike_terminated h
  | block _ body =>
    cases braced with
    | false => exact alike_statements h site body
    | true =>
      have hbody := (alike_statements h site.enter body).deeper
      exact ((WrittenAlike.code (h.kinship.const _)).append hbody).append (alike_closing h)
  | exprStmt _ node => exact alike_expressionLine h site node
  | ifStmt _ test consequent otherwise =>
    have hconsequent := alike_statement h site.enter false consequent
    have hotherwise := alike_alternate h site otherwise
    exact .withText (alike_text h site test) fun _ htest =>
      alike_body h (h.kinship.before (h.kinship.after _ htest) _) hconsequent hotherwise
  | whileStmt _ test body =>
    have hbody := alike_statement h site.enter false body
    exact .withText (alike_text h site test) fun _ htest =>
      alike_body h (h.kinship.before (h.kinship.after _ htest) _) hbody (alike_closing h)
  | forStmt _ start test update body =>
    have hbody := alike_statement h (site.enter.afterStart start).enter false body
    refine .withText (alike_loopStart h _ start) fun _ hstart => ?_
    refine .withText (alike_text? h _ test) fun _ htest => ?_
    refine .withText (alike_text? h _ update) fun _ hupdate => ?_
    have hbegin := h.kinship.before (h.kinship.after "for (" hstart) "; "
    have hmiddle := h.kinship.before (h.kinship.append hbegin htest) "; "
    have hhead := h.kinship.before (h.kinship.append hmiddle hupdate) ")"
    exact alike_body h hhead hbody (alike_closing h)
  | breakStmt | continueStmt => exact .code (h.kinship.const _)
  | returnStmt _ argument =>
    cases argument with
    | none => exact .code (h.kinship.const _)
    | some node =>
      exact .withText (alike_text h site node) fun _ hvalue =>
        alike_terminated h (h.kinship.after _ hvalue)
  | functionDecl | structDecl | importDecl | program => exact .failure
  | _ => exact alike_expressionLine h site _
termination_by structural node

theorem alike_statements (h : SetupsAlike kin setups names) (site : Site) (nodes : List Node) :
    WrittenAlike kin commented (fun i => statements (setups i) (names i) site nodes) [] := by
  cases nodes with
  | nil => exact .nothing
  | cons node rest =>
    have hnode := alike_statement h site true node
    have hrest := alike_statements h (site.after node) rest
    exact hnode.append hrest
termination_by structural nodes

theorem alike_alternate (h : SetupsAlike kin setups names) (site : Site)
    (otherwise : Option Node) :
    WrittenAlike kin commented (fun i => alternate (setups i) (names i) site otherwise) [] := by
  cases otherwise with
  | none => exact alike_closing h
  | some node =>
    cases node with
    | ifStmt _ test consequent otherwise =>
      have hconsequent := alike_statement h site.enter false consequent
      have hotherwise := alike_alternate h site otherwise
      exact .withText (alike_text h site test) fun _ htest =>
        alike_body h (h.kinship.before (h.kinship.after _ htest) _) hconsequent hotherwise
    | _ =>
      exact alike_body h (h.kinship.const _) (alike_statement h site.enter false _)
        (alike_closing h)
termination_by structural otherwise

end

/-! ## Declarations -/

/-- The comment in front of a function or a method. -/
def commentLine (name : String) : Line :=
  .code 0 ("/** @brief " ++ mangle name ++ " */")

/-- The comment that a method may have. -/
def methodComments : Node → List Line
  | .functionDecl _ name .. => [commentLine name]
  | _ => []

/-- The comments that a node of the top level may have. -/
def declarationComments : Node → List Line
  | .functionDecl _ name .. => [commentLine name]
  | .structDecl _ _ _ methods => (methods.flatMap methodComments).map Line.deeper
  | _ => []

/-- The comments that a program may have. -/
def comments (body : List Node) : List Line :=
  (body.flatMap declarationComments).map Line.deeper

end Outline

/-- Which setups ask for comments. -/
def isCommented (setups : ι → Setup) (i : ι) : Bool :=
  (setups i).options.docComments

namespace Outline

theorem alike_functionComment (name : String) :
    WrittenAlike kin (isCommented setups) (fun i => functionComment (setups i) name)
      [commentLine name] := by
  refine .inr ⟨_, .comment (commentLine name), fun i => ?_⟩
  cases hask : (setups i).options.docComments <;>
    simp [functionComment, isCommented, hask, Written.nothing, Written.code, commentLine]

section

variable (h : SetupsAlike kin setups names)

include h

theorem alike_typedNameText (entry : TypedName) :
    kin fun i => Render.typedNameText (setups i) entry :=
  h.kinship.before (h.kinship.before (h.type _) _) _

theorem alike_paramsText (params : List TypedName) :
    kin fun i => Render.paramsText (setups i) params := by
  refine h.kinship.commaSeparated ?_
  induction params.filter Render.isWritten with
  | nil => exact .nil
  | cons param rest ih => exact .cons (alike_typedNameText h param) ih

theorem alike_functionDecl (site : Site) (name : String) (params : List TypedName)
    (returnType : Option String) (body : Node) :
    WrittenAlike kin (isCommented setups)
      (fun i => functionDecl (setups i) (names i) site name params returnType body)
      [commentLine name] := by
  have hsignature := h.kinship.append (h.kinship.before (h.kinship.before
    (h.type (some (returnType.getD Render.defaultReturnType))) " ") (mangle name))
    (h.kinship.parenthesized (alike_paramsText h params))
  have hbody : WrittenAlike kin (isCommented setups)
      (fun i => functionBody (setups i) (names i) site name params returnType body) [] :=
    alike_body h hsignature (alike_statement h _ false body) (alike_closing h)
  exact (WrittenAlike.blank.append (alike_functionComment name)).append hbody

theorem alike_method (site : Site) (node : Node) :
    WrittenAlike kin (isCommented setups) (fun i => method (setups i) (names i) site node)
      (methodComments node) := by
  cases node with
  | functionDecl => exact alike_functionDecl h ..
  | _ => exact .failure

theorem alike_structDecl (site : Site) (name : String) (fields : List TypedName)
    (methods : List Node) :
    WrittenAlike kin (isCommented setups)
      (fun i => structDecl (setups i) (names i) site name fields methods)
      ((methods.flatMap methodComments).map Line.deeper) := by
  have hhead : WrittenAlike kin (isCommented setups)
      (fun _ => .blank ++ opening ("struct " ++ mangle name)) [] :=
    WrittenAlike.blank.append (alike_opening h (h.kinship.const _))
  have hfields : WrittenAlike kin (isCommented setups) (fun i =>
      .each (fun entry => terminated (Render.typedNameText (setups i) entry)) fields) [] :=
    .each_nil fun entry _ => alike_terminated h (alike_typedNameText h entry)
  have hmethods : WrittenAlike kin (isCommented setups)
      (fun i => .each (method (setups i) (names i) site) methods)
      (methods.flatMap methodComments) :=
    .each fun node _ => alike_method h site node
  have hlines := (hhead.append (hfields.append hmethods).deeper).append
    (.code (h.kinship.const "\x7d;"))
  rwa [List.nil_append, List.nil_append, List.append_nil] at hlines

theorem alike_namespaceItem (node : Node) :
    WrittenAlike kin (isCommented setups) (fun i => namespaceItem (setups i) (names i) node)
      (declarationComments node) := by
  cases node with
  | functionDecl => exact alike_functionDecl h ..
  | structDecl => exact alike_structDecl h ..
  | variableDecl =>
    exact .withText (alike_variableText h ..) fun _ => alike_terminated h
  | _ => exact .nothing

end

end Outline

/-! ## Files -/

/-- Setups that differ in nothing but texts that agree, also in the frame of a file. -/
structure FilesAlike (kin : (ι → String) → Prop) (setups : ι → Setup)
    (names : ι → Site → Naming) : Prop extends SetupsAlike kin setups names where
  hasEntryPoint : ∃ found, ∀ i, (setups i).registry.hasEntryPoint = found
  namespaceOpening : kin fun i => "namespace " ++ (setups i).options.namespaceName
  namespaceClosing : kin fun i => "\x7d // namespace " ++ (setups i).options.namespaceName
  entryCall : kin fun i => (setups i).options.namespaceName ++ "::" ++ mangle entryPointName ++ "()"

namespace Outline

variable (h : FilesAlike kin setups names)

include h

theorem alike_entryItem (node : Node) :
    WrittenAlike kin commented (fun i => entryItem (setups i) (names i) node) [] := by
  obtain ⟨found, hfound⟩ := h.hasEntryPoint
  simp only [entryItem, hfound]
  split
  · exact .nothing
  · exact alike_statement h.toSetupsAlike entrySite true node

theorem alike_entryCall : WrittenAlike kin commented (fun i => entryCall (setups i)) [] := by
  obtain ⟨found, hfound⟩ := h.hasEntryPoint
  simp only [entryCall, hfound]
  split
  · exact alike_terminated h.toSetupsAlike h.entryCall
  · exact .nothing

theorem alike_includes (body : List Node) :
    WrittenAlike kin commented (fun _ => includes body) [] := by
  have hline : ∀ header, WrittenAlike kin commented (fun _ => includeLine header) [] :=
    fun header => .code (h.kinship.const _)
  exact (((hline _).append (.each_nil fun header _ => hline header)).append
    (.each_nil fun path _ => hline _)).append .blank

theorem alike_namespacePart (body : List Node) :
    WrittenAlike kin (isCommented setups) (fun i => namespacePart (setups i) (names i) body)
      (comments body) := by
  have hitems : WrittenAlike kin (isCommented setups)
      (fun i => .each (namespaceItem (setups i) (names i)) body)
      (body.flatMap declarationComments) :=
    .each fun node _ => alike_namespaceItem h.toSetupsAlike node
  have hhead := (alike_opening h.toSetupsAlike h.namespaceOpening).append hitems.deeper
  have hlines := ((hhead.append .blank).append (.code h.namespaceClosing)).append .blank
  rwa [List.nil_append, List.append_nil, List.append_nil, List.append_nil] at hlines

theorem alike_entryPoint (body : List Node) :
    WrittenAlike kin commented (fun i => entryPoint (setups i) (names i) body) [] := by
  have hopening : ∀ head, WrittenAlike kin commented (fun _ => opening head) [] := fun head =>
    alike_opening h.toSetupsAlike (h.kinship.const head)
  have hcode : ∀ content, WrittenAlike kin commented (fun _ => .code content) [] := fun content =>
    .code (h.kinship.const content)
  have hitems : WrittenAlike kin commented
      (fun i => .each (entryItem (setups i) (names i)) body) [] :=
    .each_nil fun node _ => alike_entryItem h node
  have hrun := (hitems.append (alike_entryCall h)).append (hcode "return 0;")
  have hcatch := (hcode ("std::cerr << \"" ++ fatalPrefix ++
    ": \" << e.what() << std::endl;")).append (hcode "return 1;")
  have htry := (((hopening "try").append hrun.deeper).append
    (hopening "\x7d catch (const std::exception& e)")).append hcatch.deeper
  exact ((hopening "int main(int argc, char* argv[])").append
    (htry.append (hcode "\x7d")).deeper).append (hcode "\x7d")

/-- The lines behind the banner correspond to each other under all setups. -/
theorem alike_page (body : List Node) :
    WrittenAlike kin (isCommented setups) (fun i => page (setups i) (names i) body)
      (comments body) := by
  have hlines := ((alike_includes h body).append (alike_namespacePart h body)).append
    (alike_entryPoint h body)
  rwa [List.nil_append, List.append_nil] at hlines

theorem alike_banner {asked : Bool} (hasked : ∀ i, (setups i).options.banner = asked) :
    WrittenAlike kin commented (fun i => banner (setups i)) [] := by
  simp only [banner, hasked]
  split
  · exact (WrittenAlike.each_nil fun _ _ => .code (h.kinship.const _)).append .blank
  · exact .nothing

/-- All lines correspond to each other under setups that agree about the banner. -/
theorem alike_sourceFile {asked : Bool} (hasked : ∀ i, (setups i).options.banner = asked)
    (body : List Node) :
    WrittenAlike kin (isCommented setups) (fun i => sourceFile (setups i) (names i) body)
      (comments body) := by
  simp only [sourceFile_eq]
  exact (alike_banner h hasked).append (alike_page h body)

end Outline

/-! ## Setups with the same names -/

/-- Setups with the same names of the top level differ in nothing but the places where the namespace
is written. There it stands behind something else or in front of two colons. -/
theorem filesAlike_of_kindOf {kindOf : String → Option SymbolKind} (hkin : IsKinship kin)
    (hkind : ∀ i, (setups i).registry.kindOf = kindOf)
    (hbehind : ∀ text, text ≠ "" → kin fun i => text ++ (setups i).options.namespaceName)
    (hqualified : ∀ name, kin fun i => (setups i).options.namespaceName ++ "::" ++ name) :
    FilesAlike kin setups fun i => (setups i).naming where
  kinship := hkin
  names site := by
    have hcontains : ∀ i, (setups i).registry.contains = fun name => (kindOf name).isSome :=
      fun i => by rw [← hkind i]; rfl
    refine .ofReference hkin fun name => ?_
    simp only [lexicalReference, hcontains]
    split_ifs
    · exact hkin.const _
    · exact hkin.const _
    · exact hkin.const _
    · exact hqualified _
    · exact hkin.const _
  core name := by
    have hrecord : ∀ i, (setups i).registry.isRecord = fun name => kindOf name == some .record :=
      fun i => by rw [← hkind i]; rfl
    simp only [TypeTerm.coreCpp, hrecord]
    split_ifs
    · exact hkin.const _
    · exact hqualified _
    · exact hkin.const _
  hasEntryPoint :=
    ⟨kindOf (mangle entryPointName) == some .function, fun i => by rw [← hkind i]; rfl⟩
  namespaceOpening := hbehind _ (by decide)
  namespaceClosing := hbehind _ (by decide)
  entryCall := hkin.before (hqualified _) "()"

/-! ## Equal texts -/

/-- Families in which all texts are equal. -/
def Constant (text : ι → String) : Prop :=
  ∀ i j, text i = text j

/-- All families of texts agree where nothing is asked of them. -/
theorem isKinship_true : IsKinship fun _ : ι → String => True :=
  ⟨fun _ => trivial, fun _ _ => trivial, fun _ _ _ => trivial⟩

theorem isKinship_constant : IsKinship (Constant : (ι → String) → Prop) where
  const _ _ _ := rfl
  append hfirst hrest i j := by simp only [hfirst i j, hrest i j]
  unary _ _ hargument i j := by simp only [hargument i j]

theorem LinesAlike.eq_of_constant {lines : ι → List Line} {comments : List Line}
    (h : LinesAlike Constant commented lines comments) {i j : ι}
    (hcommented : commented i = commented j) : lines i = lines j := by
  induction h with
  | nil | blank => rfl
  | code depth hcontent => simp only [hcontent i j]
  | comment => simp only [hcommented]
  | append _ _ hfirst hrest => simp only [hfirst, hrest]

/-- Two setups under which all texts are equal give the same text. -/
theorem WrittenAlike.text_eq_of_constant {written : ι → Written} {comments : List Line}
    (h : WrittenAlike Constant commented written comments) {i j : ι}
    (hcommented : commented i = commented j) (width : Nat) :
    (written i).text width = (written j).text width := by
  rcases h with ⟨error, herror⟩ | ⟨lines, hlines, hok⟩
  · rw [Written.text, Written.text, herror i, herror j]
    rfl
  · rw [hok i, hok j, hlines.eq_of_constant hcommented]

/-- Setups with the same namespace and the same names of the top level. -/
theorem filesAlike_constant {kindOf : String → Option SymbolKind} {namespaceName : String}
    (hkind : ∀ i, (setups i).registry.kindOf = kindOf)
    (hspace : ∀ i, (setups i).options.namespaceName = namespaceName) :
    FilesAlike Constant setups fun i => (setups i).naming :=
  filesAlike_of_kindOf isKinship_constant hkind (fun _ _ i j => by simp only [hspace])
    fun _ i j => by simp only [hspace]

end TreeToCpp
