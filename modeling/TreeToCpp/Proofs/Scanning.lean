import TreeToCpp.Proofs.QuotedText
import TreeToCpp.Proofs.Wording

/-!
# Counting the braces of a text

Whoever counts the braces of a C++ text has to pass over its string literals, in which a brace is a
character like any other, and to find out where a literal ends. `Scan.step` does so character by
character. It gives up at a brace that closes nothing and at a line break in a literal.

A text is level if it closes what it opens and nothing else, on a single line. Level texts may be
put behind one another and between braces, so a text is level if its pieces are. Words are, and so
is everything else without quotes, braces and blanks; a string literal is level whatever it holds.

## Main definitions

* `Scan`, `Scan.step`, `scan` — counting braces
* `IsLevel`, `Opens` — texts that can stand anywhere, and at the beginning of a line
* `IsPlain`, `Stock.IsPlain` — what a program may mention

## Main results

* `isLevel_quoted` — string literals are level
* `Composed.isLevel`, `Composed.opens` — so is every text that is made of pieces
-/

namespace TreeToCpp

/-! ## The scanner -/

/-- How far a text has been read: in how many braces, and whether in a string literal. -/
inductive Scan where
  | code (depth : Nat)
  | string (depth : Nat)
  /-- In a string literal, behind a backslash. -/
  | escaped (depth : Nat)
  deriving DecidableEq, Repr

/-- The characters that end a line. -/
def isLineBreak (c : Char) : Bool :=
  c == '\n' || c == '\r'

namespace Scan

/-- Reads one character. -/
def step : Scan → Char → Option Scan
  | .code depth, c =>
    if c = '"' then some (.string depth)
    else if c = '\x7b' then some (.code (depth + 1))
    else if c = '\x7d' then if depth = 0 then none else some (.code (depth - 1))
    else some (.code depth)
  | .string depth, c =>
    if c = '"' then some (.code depth)
    else if c = '\\' then some (.escaped depth)
    else if isLineBreak c then none
    else some (.string depth)
  | .escaped depth, c => if isLineBreak c then none else some (.string depth)

/-- The same place, with one more brace around it. -/
def deeper : Scan → Scan
  | .code depth => .code (depth + 1)
  | .string depth => .string (depth + 1)
  | .escaped depth => .escaped (depth + 1)

theorem step_deeper {state next : Scan} {c : Char} (h : state.step c = some next) :
    state.deeper.step c = some next.deeper := by
  cases state <;> grind [step, deeper]

end Scan

/-- Reads characters one after the other. -/
def scan (state : Scan) (text : List Char) : Option Scan :=
  text.foldlM Scan.step state

theorem scan_cons (state : Scan) (c : Char) (rest : List Char) :
    scan state (c :: rest) = (state.step c).bind (scan · rest) := rfl

theorem scan_append (state : Scan) (first rest : List Char) :
    scan state (first ++ rest) = (scan state first).bind (scan · rest) :=
  List.foldlM_append

/-- What can be read somewhere can be read in one more brace. -/
theorem scan_deeper {state last : Scan} {text : List Char} (h : scan state text = some last) :
    scan state.deeper text = some last.deeper := by
  induction text generalizing state with
  | nil => cases h; rfl
  | cons c rest ih =>
    rw [scan_cons] at h ⊢
    obtain ⟨next, hnext, hrest⟩ := Option.bind_eq_some_iff.mp h
    rw [Scan.step_deeper hnext]
    exact ih hrest

/-! ## Level texts -/

/-- A text that opens and closes its own braces and literals, on a single line. -/
def IsLevel (text : List Char) : Prop :=
  scan (.code 0) text = some (.code 0) ∧ '\n' ∉ text

instance (text : List Char) : Decidable (IsLevel text) :=
  inferInstanceAs (Decidable (_ ∧ _))

namespace IsLevel

variable {text rest : List Char}

/-- A level text can be read in any number of braces. -/
theorem scan_eq (h : IsLevel text) (depth : Nat) :
    scan (.code depth) text = some (.code depth) := by
  induction depth with
  | zero => exact h.1
  | succ depth ih => exact scan_deeper ih

theorem nil : IsLevel [] := by decide

theorem append (h : IsLevel text) (hrest : IsLevel rest) : IsLevel (text ++ rest) := by
  refine ⟨?_, fun hmem => (List.mem_append.mp hmem).elim h.2 hrest.2⟩
  rw [scan_append, h.1]
  exact hrest.1

theorem braces (h : IsLevel text) : IsLevel ('\x7b' :: (text ++ ['\x7d'])) := by
  refine ⟨?_, by simpa using h.2⟩
  show scan (.code 1) (text ++ ['\x7d']) = _
  rw [scan_append, h.scan_eq]
  rfl

end IsLevel

/-- A text that can stand behind the spaces at the beginning of a line, without closing a brace
there. -/
def Opens : List Char → Prop
  | [] => False
  | first :: _ => first ≠ ' ' ∧ first ≠ '\x7d'

instance : (text : List Char) → Decidable (Opens text)
  | [] => inferInstanceAs (Decidable False)
  | _ :: _ => inferInstanceAs (Decidable (_ ∧ _))

theorem Opens.append {text : List Char} (h : Opens text) (rest : List Char) :
    Opens (text ++ rest) := by
  cases text with
  | nil => exact h.elim
  | cons => exact h

/-! ## Plain texts -/

/-- Characters that are no blanks, quotes or braces. -/
def isPlainChar (c : Char) : Bool :=
  !(c.isWhitespace || c == '"' || c == '\x7b' || c == '\x7d')

/-- A text without blanks, quotes and braces. -/
def IsPlain (text : List Char) : Prop :=
  ∀ c ∈ text, isPlainChar c = true

instance (text : List Char) : Decidable (IsPlain text) :=
  List.decidableBAll (fun c => isPlainChar c = true) text

namespace IsPlain

variable {text rest : List Char}

theorem append (h : IsPlain text) (hrest : IsPlain rest) : IsPlain (text ++ rest) :=
  fun c hc => (List.mem_append.mp hc).elim (h c) (hrest c)

theorem notMem (h : IsPlain text) {c : Char} (hc : isPlainChar c = false) : c ∉ text := by
  intro hmem
  rw [h c hmem] at hc
  exact nomatch hc

theorem head_ne {c other : Char} (h : IsPlain (c :: rest)) (hother : isPlainChar other = false) :
    c ≠ other := by
  rintro rfl
  exact h.notMem hother List.mem_cons_self

theorem opens (h : IsPlain text) (hne : text ≠ []) : Opens text := by
  cases text with
  | nil => exact absurd rfl hne
  | cons => exact ⟨h.head_ne (by decide), h.head_ne (by decide)⟩

theorem isLevel (h : IsPlain text) : IsLevel text := by
  refine ⟨?_, h.notMem (by decide)⟩
  induction text with
  | nil => rfl
  | cons c rest ih =>
    have hc := h c List.mem_cons_self
    have hstep : (Scan.code 0).step c = some (.code 0) := by
      simp only [isPlainChar] at hc
      grind [Scan.step]
    rw [scan_cons, hstep]
    exact ih fun other hother => h other (List.mem_cons_of_mem _ hother)

end IsPlain

/-! ## Literals -/

/-- A character of a string literal does not end it. -/
theorem scan_escape (c : Char) : scan (.string 0) (escape c) = some (.string 0) := by
  simp only [escape]
  split
  case h_1 | h_2 | h_3 | h_4 | h_5 => rfl
  case h_6 hbackslash hquote hfeed _ hreturn =>
    have hbreak : isLineBreak c = false := by
      simpa [isLineBreak] using And.intro hfeed hreturn
    have hstep : (Scan.string 0).step c = some (.string 0) := by
      rw [Scan.step, if_neg hquote, if_neg hbackslash, hbreak, if_neg Bool.false_ne_true]
    rw [scan_cons, hstep]
    rfl

theorem lineFeed_notMem_escape (c : Char) : '\n' ∉ escape c := by
  simp only [escape]
  split
  case h_1 | h_2 | h_3 | h_4 | h_5 => decide
  case h_6 hfeed _ _ => simpa using Ne.symm hfeed

/-- A string literal is level, whatever it holds. -/
theorem isLevel_quoted (text : String) : IsLevel (quoted text).toList := by
  have hinside : scan (.string 0) (text.toList.flatMap escape) = some (.string 0) := by
    induction text.toList with
    | nil => rfl
    | cons c rest ih =>
      rw [List.flatMap_cons, scan_append, scan_escape]
      exact ih
  rw [toList_quoted]
  constructor
  · show scan (.string 0) (text.toList.flatMap escape ++ ['"']) = _
    rw [scan_append, hinside]
    rfl
  · simpa using fun c _ => lineFeed_notMem_escape c

theorem isPlain_of_isDigit {text : List Char} (h : ∀ c ∈ text, c.isDigit = true) :
    IsPlain text := by
  intro c hc
  have hdigit := h c hc
  rw [isPlainChar, Bool.not_eq_true', Bool.eq_false_iff]
  intro hother
  simp only [Char.isWhitespace, Bool.or_eq_true, decide_eq_true_eq, beq_iff_eq] at hother
  obtain (((((rfl | rfl) | rfl) | rfl) | rfl) | rfl) | rfl := hother <;>
    exact absurd hdigit (by decide)

theorem isPlain_toDigits (n : Nat) : IsPlain (Nat.toDigits 10 n) :=
  isPlain_of_isDigit fun _ => Nat.isDigit_of_mem_toDigits (by decide) (by decide)

theorem isPlain_toString (n : Nat) : IsPlain (toString n).toList :=
  isPlain_of_isDigit fun _ => Json.Number.isDigit_of_mem_toString

namespace Json.Number

theorem isPlain_pointed {digits : List Char} (h : IsPlain digits) (whole : Nat) :
    IsPlain (pointed digits whole).toList :=
  forall_mem_pointed h (by decide) (by decide) whole

theorem isPlain_exponentText (exponent : Int) : IsPlain (exponentText exponent).toList := by
  rw [exponentText, String.toList_append]
  refine .append ?_ (isPlain_toString _)
  split <;> decide

theorem isPlain_replicate {c : Char} (hc : isPlainChar c = true) (count : Nat) :
    IsPlain (List.replicate count c) :=
  fun _ hmem => (List.eq_of_mem_replicate hmem).symm ▸ hc

theorem isPlain_decimalText (coefficient : Nat) (scale : Int) :
    IsPlain (decimalText coefficient scale).toList := by
  have hdigits := isPlain_toDigits coefficient
  rw [decimalText]
  split
  · split
    · rename_i digit hdigit
      rw [String.toList_append, String.toList_singleton]
      exact .append (hdigit ▸ hdigits) (isPlain_exponentText _)
    · rw [String.toList_append]
      exact .append (isPlain_pointed hdigits _) (isPlain_exponentText _)
  · split
    · simp only [String.toList_append, String.toList_ofList, zeros]
      exact .append (.append (by decide) (isPlain_replicate (by decide) _)) hdigits
    · exact isPlain_pointed (hdigits.append (isPlain_replicate (by decide) _)) _

theorem decimalText_ne_nil (coefficient : Nat) (scale : Int) :
    (decimalText coefficient scale).toList ≠ [] := by
  rw [decimalText]
  split
  · split <;> simp [pointed]
  · split <;> simp [pointed]

/-- A number is written without blanks, quotes and braces. -/
theorem isPlain_text (number : Number) : IsPlain number.text.toList := by
  cases number with
  | natural value => exact isPlain_toString _
  | negative predecessor =>
    rw [text, String.toList_append]
    exact .append (by decide) (isPlain_toString _)
  | real bits =>
    simp only [text, realText, String.toList_append]
    refine .append ?_ ?_
    · split <;> decide
    · split
      · decide
      · exact isPlain_decimalText _ _

theorem text_ne_nil (number : Number) : number.text.toList ≠ [] := by
  cases number with
  | natural value =>
    rw [text, show (toString value.toNat).toList = Nat.toDigits 10 value.toNat from Nat.toList_repr]
    exact Nat.toDigits_ne_nil
  | negative predecessor => simp [text]
  | real bits =>
    rw [text, realText, String.toList_append]
    refine List.append_ne_nil_of_right_ne_nil _ ?_
    split
    · decide
    · exact decimalText_ne_nil _ _

end Json.Number

theorem isLevel_cpp (value : Literal) : IsLevel value.cpp.toList ∧ Opens value.cpp.toList := by
  cases value with
  | string text => exact ⟨isLevel_quoted text, by simp [Literal.cpp, toList_quoted, Opens]⟩
  | boolean value => cases value <;> decide
  | number value => exact ⟨value.isPlain_text.isLevel, value.isPlain_text.opens value.text_ne_nil⟩
  | null => decide

/-! ## What a program may mention -/

/-- Names and operators are plain and not empty, and annotations and paths are plain. Literals may
be anything. -/
def Mention.IsPlain : Mention → Prop
  | .name text => text.toList ≠ [] ∧ TreeToCpp.IsPlain text.toList
  | .operator text => text.toList ≠ [] ∧ TreeToCpp.IsPlain text.toList
  | .type text => TreeToCpp.IsPlain text.toList
  | .importPath text => TreeToCpp.IsPlain text.toList
  | .literal _ => True

instance : (mention : Mention) → Decidable mention.IsPlain
  | .name _ => inferInstanceAs (Decidable (_ ∧ _))
  | .operator _ => inferInstanceAs (Decidable (_ ∧ _))
  | .type text => inferInstanceAs (Decidable (TreeToCpp.IsPlain text.toList))
  | .importPath text => inferInstanceAs (Decidable (TreeToCpp.IsPlain text.toList))
  | .literal _ => inferInstanceAs (Decidable True)

/-- The namespace is plain, and so is all that is mentioned. -/
structure Stock.IsPlain (stock : Stock) : Prop where
  namespaceName : TreeToCpp.IsPlain stock.namespaceName.toList
  mentioned : ∀ mention ∈ stock.mentioned, mention.IsPlain

theorem isPlain_mangle {name : String} (h : IsPlain name.toList) :
    IsPlain (mangle name).toList := by
  refine mangle_cases (motive := fun text => IsPlain text.toList) h ?_
  rw [String.toList_append]
  exact h.append (by decide)

theorem trim_subset (text : List Char) : trim text ⊆ text := by
  have hdrop : ∀ text : List Char, text.dropWhile isBlank ⊆ text := fun text =>
    (List.dropWhile_sublist isBlank).subset
  intro c hc
  have hreversed := hdrop _ (List.mem_reverse.mp hc)
  exact hdrop _ (List.mem_reverse.mp hreversed)

/-- The core of an annotation is a part of it. -/
theorem coreName_subset (text : List Char) : (TypeTerm.parse text).coreName.toList ⊆ text := by
  fun_induction TypeTerm.parse text with
  | case1 text wrapper inner h _ _ ih =>
    have hstrip := Wrapper.strip?_eq_some_iff.mp (Wrapper.strip?_of_unwrap? h)
    have hinner : inner ⊆ trim text := by simp [hstrip]
    exact List.Subset.trans (List.Subset.trans ih hinner) (trim_subset text)
  | case2 text => simpa [TypeTerm.coreName] using trim_subset text

/-- What a text may show as a name is plain and not empty, if what is mentioned is plain. -/
theorem IsName.isPlain {stock : Stock} (hstock : stock.IsPlain) {name : String}
    (h : IsName stock name) : IsPlain name.toList ∧ name.toList ≠ [] := by
  cases h with
  | mentioned h =>
    obtain ⟨hne, hplain⟩ := hstock.mentioned _ h
    exact ⟨hplain, hne⟩
  | @annotated type h hne =>
    have hplain := hstock.mentioned _ h
    exact ⟨fun c hc => hplain c (coreName_subset _ hc), by simpa using hne⟩
  | entryPoint => decide

/-! ## Pieces -/

theorem isLevel_words : ∀ word ∈ leadingWords, IsLevel word.toList ∧ Opens word.toList := by
  decide +kernel

theorem isLevel_connectives : ∀ word ∈ connectives, IsLevel word.toList := by
  decide +kernel

/-- Between quotes a plain text stays inside the literal. It may end behind a backslash. -/
theorem scan_plain {text : List Char} (h : IsPlain text) {state : Scan}
    (hstate : state ∈ [Scan.string 0, .escaped 0]) :
    ∃ next ∈ [Scan.string 0, .escaped 0], scan state text = some next := by
  induction text generalizing state with
  | nil => exact ⟨state, hstate, rfl⟩
  | cons c rest ih =>
    have hquote : c ≠ '"' := h.head_ne (by decide)
    have hbreak : isLineBreak c = false := by
      rw [isLineBreak, Bool.or_eq_false_iff, beq_eq_false_iff_ne, beq_eq_false_iff_ne]
      exact ⟨h.head_ne (by decide), h.head_ne (by decide)⟩
    obtain ⟨next, hnext, hstep⟩ :
        ∃ next ∈ [Scan.string 0, .escaped 0], state.step c = some next := by
      rcases List.mem_pair.mp hstate with rfl | rfl
      · by_cases hbackslash : c = '\\' <;> simp [Scan.step, hquote, hbackslash, hbreak]
      · simp [Scan.step, hbreak]
    rw [scan_cons, hstep]
    exact ih (fun other hother => h other (List.mem_cons_of_mem _ hother)) hnext

/-- A header between quotes is level, too. -/
theorem isLevel_header {path : String} (h : IsPlain path.toList) :
    IsLevel (Render.quotedHeader (path ++ SupportLibrary.headerExtension)).toList := by
  have htext : (Render.quotedHeader (path ++ SupportLibrary.headerExtension)).toList =
      '"' :: (path.toList ++ (SupportLibrary.headerExtension.toList ++ ['"'])) := by
    simp [Render.quotedHeader]
  obtain ⟨next, hnext, hpath⟩ := scan_plain h (by simp : Scan.string 0 ∈ _)
  rw [htext]
  constructor
  · show scan (.string 0) _ = _
    rw [scan_append, hpath]
    show scan next (SupportLibrary.headerExtension.toList ++ ['"']) = _
    rcases List.mem_pair.mp hnext with rfl | rfl <;> rfl
  · have hfeed : '\n' ∉ path.toList := h.notMem (by decide)
    have hend : '\n' ∉ SupportLibrary.headerExtension.toList ++ ['"'] := by decide
    rw [List.mem_cons, List.mem_append]
    rintro (hquote | hmem | hmem)
    · exact absurd hquote (by decide)
    · exact hfeed hmem
    · exact hend hmem

/-- Every text that is made of pieces is level. -/
theorem Composed.isLevel {stock : Stock} (hstock : stock.IsPlain) {led : Bool} {text : String}
    {written : List String} (h : Composed stock led text written) : IsLevel text.toList := by
  induction h with
  | nothing => exact .nil
  | word word hword => exact (isLevel_words word hword).1
  | connective word hword => exact isLevel_connectives word hword
  | namespaceName => exact hstock.namespaceName.isLevel
  | qualifier =>
    rw [String.toList_append]
    exact hstock.namespaceName.isLevel.append (by decide)
  | header hpath => exact isLevel_header (hstock.mentioned _ hpath)
  | operator hoperator => exact (hstock.mentioned _ hoperator).2.isLevel
  | literal => exact (isLevel_cpp _).1
  | name hname => exact (isPlain_mangle (hname.isPlain hstock).1).isLevel
  | braces _ ih => simpa using ih.braces
  | append _ _ ihfirst ihrest =>
    rw [String.toList_append]
    exact ihfirst.append ihrest

/-- Every text that begins with a leading piece can stand at the beginning of a line. -/
theorem Composed.opens {stock : Stock} (hstock : stock.IsPlain) {led : Bool} {text : String}
    {written : List String} (h : Composed stock led text written) (hled : led = true) :
    Opens text.toList := by
  induction h with
  | nothing | connective | namespaceName | header => cases hled
  | word word hword => exact (isLevel_words word hword).2
  | qualifier =>
    rw [String.toList_append]
    exact (hstock.namespaceName.append (by decide)).opens (by simp)
  | operator hoperator =>
    obtain ⟨hne, hplain⟩ := hstock.mentioned _ hoperator
    exact hplain.opens hne
  | literal => exact (isLevel_cpp _).2
  | @name name hname =>
    obtain ⟨hplain, hne⟩ := hname.isPlain hstock
    have hmangled : (mangle name).toList ≠ [] := by
      refine mangle_cases (motive := fun text => text.toList ≠ []) hne ?_
      rw [String.toList_append]
      exact List.append_ne_nil_of_left_ne_nil hne _
    exact (isPlain_mangle hplain).opens hmangled
  | braces => simp [Opens]
  | append _ _ ihfirst =>
    rw [String.toList_append]
    exact (ihfirst hled).append _

end TreeToCpp
