import Mathlib.Data.List.Chain
import Mathlib.Data.List.Infix
import TreeToCpp.Proofs.Acceptance
import TreeToCpp.Proofs.StringLiterals
import TreeToCpp.Proofs.Wording

/-!
# Signs kept apart

C++ reads `--` as one token, and `++` likewise, so a negated negative number must not be written by
putting one minus behind the other. The text of an expression is put together in many ways, but only
in one of them two pieces meet without something between them that is neither sign: a unary operator
in front of its argument. That is the place where `runsTogether` looks at the two characters that
meet, and the argument may begin in any way, with a number, with another operator or with the left
side of an assignment.

What is inside a string literal is not read as a token. So the literals are taken out of a text
before its signs are looked at, and only the opening quote is left of each.

## Main definitions

* `codeFrom`, `codeOf` — a text without its string literals
* `SignsApart` — no `++` and no `--`
* `IsSteady` — a text outside whose literals all signs are apart
* `Mention.KeepsSignsApart` — what an expression may mention

## Main results

* `codeFrom_literal` — of a literal the opening quote is left
* `IsSteady.join` — two steady texts with a separator between them
* `isSteady_expression` — the texts of expressions are steady
* `expression_signs_apart` — no `++` and no `--` comes about by accident
-/

namespace TreeToCpp

/-! ## Outside of literals -/

/-- Where a text has been read to. -/
inductive Lexing where
  | code
  /-- In a string literal. -/
  | literal
  /-- In a string literal, behind a backslash. -/
  | escape
  deriving DecidableEq, Repr

/-- Reads one character. -/
def Lexing.step : Lexing → Char → Lexing
  | .code, c => if c = '"' then .literal else .code
  | .literal, c => if c = '"' then .code else if c = '\\' then .escape else .literal
  | .escape, _ => .literal

/-- Reads characters one after the other. -/
def Lexing.behind (state : Lexing) (text : List Char) : Lexing :=
  text.foldl Lexing.step state

/-- What a text has outside of its string literals. Of a literal the opening quote is left, which
keeps apart what stands around the literal. -/
def codeFrom : Lexing → List Char → List Char
  | _, [] => []
  | .code, c :: rest => c :: codeFrom (Lexing.code.step c) rest
  | .literal, c :: rest => codeFrom (Lexing.literal.step c) rest
  | .escape, c :: rest => codeFrom (Lexing.escape.step c) rest

/-- What a text has outside of its string literals. -/
def codeOf (text : String) : List Char :=
  codeFrom .code text.toList

theorem Lexing.behind_append (state : Lexing) (first rest : List Char) :
    state.behind (first ++ rest) = (state.behind first).behind rest :=
  List.foldl_append

theorem codeFrom_append (state : Lexing) (first rest : List Char) :
    codeFrom state (first ++ rest) = codeFrom state first ++ codeFrom (state.behind first) rest := by
  induction first generalizing state with
  | nil => rfl
  | cons c first ih => cases state <;> simp [codeFrom, ih, Lexing.behind]

theorem head?_codeOf (text : String) : (codeOf text).head? = text.toList.head? := by
  rw [codeOf]
  cases text.toList <;> rfl

/-- A text without quotes has no literals. -/
theorem behind_of_notMem {text : List Char} (h : '"' ∉ text) : Lexing.code.behind text = .code := by
  induction text with
  | nil => rfl
  | cons c rest ih =>
    obtain ⟨hc, hrest⟩ := List.ne_and_not_mem_of_not_mem_cons h
    rw [Lexing.behind, List.foldl_cons, Lexing.step, if_neg hc.symm]
    exact ih hrest

theorem codeFrom_of_notMem {text : List Char} (h : '"' ∉ text) : codeFrom .code text = text := by
  induction text with
  | nil => rfl
  | cons c rest ih =>
    obtain ⟨hc, hrest⟩ := List.ne_and_not_mem_of_not_mem_cons h
    rw [codeFrom, Lexing.step, if_neg hc.symm, ih hrest]

/-- What stands between the quotes of a literal is passed over. -/
theorem StandsFor.passed {spelling value : List Char} (h : StandsFor spelling value) :
    Lexing.literal.behind spelling = .literal ∧ codeFrom .literal spelling = [] := by
  induction h with
  | nothing => exact ⟨rfl, rfl⟩
  | escape _ _ ih => exact ih
  | plain hquote hbackslash _ _ _ ih =>
    rw [Lexing.behind, List.foldl_cons, codeFrom, Lexing.step, if_neg hquote, if_neg hbackslash]
    exact ih

/-- Of a literal the opening quote is left, and what stands behind it is read as if it stood alone. -/
theorem codeFrom_literal {text behind : List Char} {value : String}
    (h : readLiteral? text = some (value, behind)) :
    codeFrom .code text = '"' :: codeFrom .code behind ∧
      Lexing.code.behind text = Lexing.code.behind behind := by
  obtain ⟨spelling, rfl, hspelling⟩ := readLiteral?_eq_some_iff.mp h
  obtain ⟨hbehind, hcode⟩ := hspelling.passed
  constructor
  · show '"' :: codeFrom .literal (spelling ++ '"' :: behind) = _
    rw [codeFrom_append, hcode, hbehind]
    rfl
  · show Lexing.literal.behind (spelling ++ '"' :: behind) = _
    rw [Lexing.behind_append, hbehind]
    rfl

/-! ## Signs -/

/-- The characters that C++ joins to one token. -/
def isSign (c : Char) : Bool :=
  c == '+' || c == '-'

/-- A text has no sign twice in a row. -/
def SignsApart (text : List Char) : Prop :=
  ¬ ['+', '+'] <:+: text ∧ ¬ ['-', '-'] <:+: text

instance (text : List Char) : Decidable (SignsApart text) :=
  inferInstanceAs (Decidable (_ ∧ _))

/-- Two characters do not run together. -/
def AreApart (first next : Char) : Prop :=
  first = next → isSign first = false

theorem AreApart.of_left {first : Char} (h : isSign first = false) (next : Char) :
    AreApart first next :=
  fun _ => h

theorem AreApart.of_right {next : Char} (h : isSign next = false) (first : Char) :
    AreApart first next := by
  rintro rfl
  exact h

theorem signsApart_iff_isChain {text : List Char} : SignsApart text ↔ text.IsChain AreApart := by
  rw [List.isChain_iff_forall_rel_of_append_cons_cons]
  constructor
  · rintro ⟨hplus, hminus⟩ sign _ before behind rfl rfl
    rw [← Bool.not_eq_true]
    intro hsign
    simp only [isSign, Bool.or_eq_true, beq_iff_eq] at hsign
    rcases hsign with rfl | rfl
    · exact hplus ⟨before, behind, by simp⟩
    · exact hminus ⟨before, behind, by simp⟩
  · intro h
    constructor <;> rintro ⟨before, behind, rfl⟩
    · have hplus : AreApart '+' '+' :=
        h (by simp : before ++ ['+', '+'] ++ behind = before ++ '+' :: '+' :: behind)
      exact absurd (hplus rfl) (by decide)
    · have hminus : AreApart '-' '-' :=
        h (by simp : before ++ ['-', '-'] ++ behind = before ++ '-' :: '-' :: behind)
      exact absurd (hminus rfl) (by decide)

theorem signsApart_append_iff {first rest : List Char} :
    SignsApart (first ++ rest) ↔ SignsApart first ∧ SignsApart rest ∧
      ∀ c ∈ first.getLast?, ∀ next ∈ rest.head?, AreApart c next := by
  simp only [signsApart_iff_isChain, List.isChain_append]

/-! ## Inert texts -/

/-- Characters that are neither signs nor quotes. -/
def isInertChar (c : Char) : Bool :=
  !(isSign c || c == '"')

/-- A text without signs and quotes. -/
def IsInert (text : List Char) : Prop :=
  ∀ c ∈ text, isInertChar c = true

instance (text : List Char) : Decidable (IsInert text) :=
  List.decidableBAll (fun c => isInertChar c = true) text

namespace IsInert

variable {text rest : List Char}

theorem append (h : IsInert text) (hrest : IsInert rest) : IsInert (text ++ rest) :=
  fun c hc => (List.mem_append.mp hc).elim (h c) (hrest c)

theorem isSign_eq_false (h : IsInert text) {c : Char} (hc : c ∈ text) : isSign c = false := by
  have hinert := h c hc
  rw [isInertChar, Bool.not_eq_true', Bool.or_eq_false_iff] at hinert
  exact hinert.1

theorem quote_notMem (h : IsInert text) : '"' ∉ text :=
  fun hmem => absurd (h _ hmem) (by decide)

theorem signsApart (h : IsInert text) : SignsApart text := by
  constructor <;> intro hpair
  · exact absurd (h.isSign_eq_false (hpair.subset List.mem_cons_self)) (by decide)
  · exact absurd (h.isSign_eq_false (hpair.subset List.mem_cons_self)) (by decide)

theorem mangle {name : String} (h : IsInert name.toList) :
    IsInert (TreeToCpp.mangle name).toList := by
  refine mangle_cases (motive := fun text => IsInert text.toList) h ?_
  rw [String.toList_append]
  exact h.append (by decide)

end IsInert

theorem isInert_of_isDigit {text : List Char} (h : ∀ c ∈ text, c.isDigit = true) :
    IsInert text := by
  intro c hc
  have hdigit := h c hc
  rw [isInertChar, Bool.not_eq_true', Bool.eq_false_iff]
  intro hother
  simp only [isSign, Bool.or_eq_true, beq_iff_eq] at hother
  obtain (rfl | rfl) | rfl := hother <;> exact absurd hdigit (by decide)

theorem isInert_toDigits (n : Nat) : IsInert (Nat.toDigits 10 n) :=
  isInert_of_isDigit fun _ => Nat.isDigit_of_mem_toDigits (by decide) (by decide)

theorem isInert_pointed {digits : List Char} (h : IsInert digits) (whole : Nat) :
    IsInert (Json.Number.pointed digits whole).toList :=
  Json.Number.forall_mem_pointed h (by decide) (by decide) whole

theorem isInert_toString (n : Nat) : IsInert (toString n).toList :=
  isInert_of_isDigit fun _ => Json.Number.isDigit_of_mem_toString

/-! ## Steady texts -/

/-- A text that ends its own literals and has all signs outside of them apart. -/
structure IsSteady (text : String) : Prop where
  /-- No literal is open at the end. -/
  closed : Lexing.code.behind text.toList = .code
  /-- There is no `++` and no `--` outside of literals. -/
  apart : SignsApart (codeOf text)

/-- A word that keeps apart what stands before it and behind it. -/
def IsSeparator (word : List Char) : Prop :=
  word ≠ [] ∧ '"' ∉ word ∧ SignsApart word ∧
    word.head?.any isSign = false ∧ word.getLast?.any isSign = false

instance (word : List Char) : Decidable (IsSeparator word) :=
  inferInstanceAs (Decidable (_ ∧ _))

/-- The words of an expression that stand between its parts. -/
def separators : List String := [
  " ", "(", ")", ", ", ".", "[", "]", "\x7b", "\x7d", " = ", "::",
  "<std::decay_t<decltype(", ")>::value_type>(", ".begin()", ".begin() + ", ".end()"]

theorem isSeparator_separators : ∀ word ∈ separators, IsSeparator word.toList := by
  decide +kernel

theorem isSteady_of_notMem {text : String} (h : '"' ∉ text.toList)
    (hapart : SignsApart text.toList) : IsSteady text where
  closed := behind_of_notMem h
  apart := by rwa [codeOf, codeFrom_of_notMem h]

theorem IsInert.isSteady {text : String} (h : IsInert text.toList) : IsSteady text :=
  isSteady_of_notMem h.quote_notMem h.signsApart

namespace IsSteady

variable {text rest : String}

theorem codeOf_append (h : IsSteady text) (rest : String) :
    codeOf (text ++ rest) = codeOf text ++ codeOf rest := by
  rw [codeOf, String.toList_append, codeFrom_append, h.closed, codeOf, codeOf]

/-- Two steady texts can be put together if no sign meets the same sign. -/
theorem append (h : IsSteady text) (hrest : IsSteady rest)
    (hmeet : ∀ c ∈ (codeOf text).getLast?, ∀ next ∈ rest.toList.head?, AreApart c next) :
    IsSteady (text ++ rest) where
  closed := by rw [String.toList_append, Lexing.behind_append, h.closed, hrest.closed]
  apart := by
    rw [h.codeOf_append, signsApart_append_iff, head?_codeOf]
    exact ⟨h.apart, hrest.apart, hmeet⟩

theorem append_of_head (h : IsSteady text) (hrest : IsSteady rest)
    (hhead : rest.toList.head?.any isSign = false) : IsSteady (text ++ rest) :=
  h.append hrest fun c _ next hnext => .of_right (Option.any_eq_false _ _ |>.mp hhead next hnext) c

theorem append_inert (h : IsSteady text) (hrest : IsInert rest.toList) :
    IsSteady (text ++ rest) :=
  h.append hrest.isSteady fun c _ _ hnext =>
    .of_right (hrest.isSign_eq_false (List.mem_of_mem_head? hnext)) c

/-- Two steady texts with a separator between them. -/
theorem join (h : IsSteady text) (word : String) (hrest : IsSteady rest)
    (hword : word ∈ separators := by simp [separators]) : IsSteady (text ++ word ++ rest) := by
  obtain ⟨hne, hquote, hapart, hhead, hlast⟩ := isSeparator_separators word hword
  have hbefore : IsSteady (text ++ word) :=
    h.append_of_head (isSteady_of_notMem hquote hapart) hhead
  refine hbefore.append hrest fun c hc next _ =>
    .of_left (Option.any_eq_false _ _ |>.mp hlast c ?_) next
  rwa [h.codeOf_append, codeOf, codeOf, codeFrom_of_notMem hquote,
    List.getLast?_append_of_ne_nil _ hne] at hc

theorem empty : IsSteady "" :=
  ⟨rfl, by decide⟩

theorem after (h : IsSteady text) (word : String)
    (hword : word ∈ separators := by simp [separators]) : IsSteady (word ++ text) := by
  simpa only [String.empty_append] using empty.join word h hword

theorem before (h : IsSteady text) (word : String)
    (hword : word ∈ separators := by simp [separators]) : IsSteady (text ++ word) := by
  simpa only [String.append_empty] using h.join word empty hword

theorem parenthesized (h : IsSteady text) : IsSteady (TreeToCpp.parenthesized text) :=
  (h.after "(").before ")"

theorem append_parenthesized (h : IsSteady text) (hrest : IsSteady rest) :
    IsSteady (text ++ TreeToCpp.parenthesized rest) := by
  rw [TreeToCpp.parenthesized, ← String.append_assoc, ← String.append_assoc]
  exact (h.join "(" hrest).before ")"

theorem objectText (object : Node) (h : IsSteady text) :
    IsSteady (TreeToCpp.objectText object text) := by
  unfold TreeToCpp.objectText
  split
  · exact h.parenthesized
  · exact h.parenthesized
  · exact h

theorem commaSeparated {texts : List String} (h : ∀ text ∈ texts, IsSteady text) :
    IsSteady (TreeToCpp.commaSeparated texts) := by
  rw [TreeToCpp.commaSeparated]
  induction texts with
  | nil => exact empty
  | cons first more ih =>
    obtain ⟨hfirst, hmore⟩ := List.forall_mem_cons.mp h
    cases more with
    | nil => simpa using hfirst
    | cons =>
      rw [String.intercalate_cons_cons]
      exact hfirst.join ", " (ih hmore)

theorem binaryText {operator : String} (setting : Setting) (h : IsSteady text)
    (hoperator : IsSteady operator) (hrest : IsSteady rest) :
    IsSteady (TreeToCpp.binaryText setting operator text rest) := by
  have hwhole := (h.join " " hoperator).join " " hrest
  cases setting with
  | delimited => exact hwhole
  | operand => exact hwhole.parenthesized

/-- Here the argument may begin with any character, and only the operator is looked at. -/
theorem unaryText {operator : String} (hquote : '"' ∉ operator.toList)
    (hoperator : SignsApart operator.toList) (h : IsSteady text) :
    IsSteady (TreeToCpp.unaryText operator text) := by
  have hfront : IsSteady operator := isSteady_of_notMem hquote hoperator
  unfold TreeToCpp.unaryText
  split
  · exact hfront.append_parenthesized h
  next hneither =>
    refine hfront.append h fun last hlast first hfirst heq => ?_
    rw [codeOf, codeFrom_of_notMem hquote] at hlast
    subst heq
    simp only [Bool.or_eq_true, not_or, runsTogether, Option.mem_def.mp hlast,
      Option.mem_def.mp hfirst] at hneither
    simpa [isSign, and_comm] using hneither.2

theorem sliceText {lower upper : Option String} (h : IsSteady text)
    (hlower : IsSteady (boundText text ".begin()" lower))
    (hupper : IsSteady (boundText text ".end()" upper)) :
    IsSteady (TreeToCpp.sliceText text lower upper) := by
  have harray : IsSteady SupportLibrary.arrayType := ⟨by decide, by decide⟩
  have hhead := (harray.join "<std::decay_t<decltype(" h).join ")>::value_type>(" hlower
  exact (hhead.join ", " hupper).before ")"

/-! ## Numbers -/

theorem append_exponentText (h : IsSteady text) (exponent : Int) :
    IsSteady (text ++ Json.Number.exponentText exponent) := by
  rw [Json.Number.exponentText, ← String.append_assoc]
  refine append_inert (h.append_of_head ?_ ?_) (isInert_toString _)
  · split <;> exact ⟨by decide, by decide⟩
  · split <;> decide

/-- A decimal may have a sign in front of its exponent, but it does not begin with one. -/
theorem append_decimalText (h : IsSteady text) (coefficient : Nat) (scale : Int) :
    IsSteady (text ++ Json.Number.decimalText coefficient scale) := by
  have hdigits : IsInert (Nat.toDigits 10 coefficient) := isInert_toDigits coefficient
  have hzeros : ∀ count, IsInert (List.replicate count '0') := fun count c hc =>
    List.eq_of_mem_replicate hc ▸ by decide
  rw [Json.Number.decimalText]
  split
  · split
    next digit hdigit =>
      rw [hdigit] at hdigits
      rw [← String.append_assoc]
      exact (h.append_inert (by simpa using hdigits)).append_exponentText _
    next =>
      rw [← String.append_assoc]
      exact (h.append_inert (isInert_pointed hdigits 1)).append_exponentText _
  · split
    · refine h.append_inert ?_
      simp only [String.toList_append, String.toList_ofList, Json.Number.zeros]
      exact .append (.append (by decide) (hzeros _)) hdigits
    · exact h.append_inert (isInert_pointed (hdigits.append (hzeros _)) _)

end IsSteady

theorem isSteady_text (number : Json.Number) : IsSteady number.text := by
  cases number with
  | natural value => exact (isInert_toString _).isSteady
  | negative predecessor =>
    exact IsSteady.append_inert ⟨by decide, by decide⟩ (isInert_toString _)
  | real bits =>
    have hsign : IsSteady (if bits ≥ 0x8000000000000000 then "-" else "") := by
      split <;> exact ⟨by decide, by decide⟩
    simp only [Json.Number.text, Json.Number.realText]
    generalize (if bits ≥ 0x8000000000000000 then "-" else "") = sign at hsign ⊢
    split
    · exact hsign.append_inert (by decide)
    · exact hsign.append_decimalText _ _

theorem isSteady_quoted (text : String) : IsSteady (quoted text) := by
  have hread : readLiteral? (quoted text).toList = some (text, []) := by
    simpa using (isLiteralOf_quoted text).read []
  obtain ⟨hcode, hbehind⟩ := codeFrom_literal hread
  exact ⟨hbehind, by rw [codeOf, hcode]; decide⟩

/-- A literal is steady, whatever a string holds and whatever sign a number has. -/
theorem isSteady_cpp (value : Literal) : IsSteady value.cpp := by
  cases value with
  | string text => exact isSteady_quoted text
  | boolean value => cases value <;> exact ⟨by decide, by decide⟩
  | number value => exact isSteady_text value
  | null => exact ⟨by decide, by decide⟩

/-! ## What an expression may mention -/

/-- Names have no signs and no quotes. Operators have no quotes, and their signs are apart. The
rest may be anything. -/
def Mention.KeepsSignsApart : Mention → Prop
  | .name text => IsInert text.toList
  | .operator text => '"' ∉ text.toList ∧ SignsApart text.toList
  | _ => True

instance : (mention : Mention) → Decidable mention.KeepsSignsApart
  | .name text => inferInstanceAs (Decidable (IsInert text.toList))
  | .operator _ => inferInstanceAs (Decidable (_ ∧ _))
  | .type _ | .importPath _ | .literal _ => inferInstanceAs (Decidable True)

/-- Every name is written in a steady way. -/
structure Naming.IsSteady (names : Naming) : Prop where
  reference : ∀ name, IsInert name.toList → TreeToCpp.IsSteady (names.reference name)
  callee : ∀ name, IsInert name.toList → TreeToCpp.IsSteady (names.callee name)

theorem Visibility.isSteady_naming {v : Visibility} (h : IsInert v.namespaceName.toList) :
    v.naming.IsSteady := by
  have hreference : ∀ name, IsInert name.toList → IsSteady (v.reference name) := by
    intro name hname
    have hbare : IsSteady (mangle name) := hname.mangle.isSteady
    unfold Visibility.reference
    split
    · exact ⟨by decide, by decide⟩
    · split
      · split
        · exact h.isSteady.join "::" hbare
        · exact hbare
      · exact hbare
  refine ⟨hreference, fun name hname => ?_⟩
  simp only [Visibility.naming, Naming.ofReference]
  cases Helper.ofName? name with
  | none => exact hreference name hname
  | some helper =>
    have hqualified : IsSteady helper.qualified := by
      cases helper
      exact ⟨by decide, by decide⟩
    exact hqualified

/-! ## Expressions -/

mutual

/-- Every expression is written in a steady way. -/
theorem isSteady_expression {names : Naming} (hnames : names.IsSteady) {setting : Setting}
    {node : Node} {text : String} (hmentions : ∀ mention ∈ node.mentions, mention.KeepsSignsApart)
    (h : expression names setting node = .ok text) : IsSteady text := by
  cases node with
  | assign _ left right =>
    obtain ⟨hleft, hright⟩ := List.forall_mem_append.mp hmentions
    simp only [expression, bind_eq_ok_iff, pure_eq_ok_iff] at h
    obtain ⟨target, htarget, value, hvalue, rfl⟩ := h
    exact (isSteady_expression hnames hleft htarget).join " = "
      (isSteady_expression hnames hright hvalue)
  | binary _ operator left right =>
    simp only [Node.mentions, List.cons_append, List.forall_mem_cons, List.forall_mem_append]
      at hmentions
    obtain ⟨⟨hquote, hapart⟩, hleft, hright⟩ := hmentions
    rw [expression] at h
    split at h
    · simp only [bind_eq_ok_iff, pure_eq_ok_iff] at h
      obtain ⟨dividend, hdividend, divisor, hdivisor, rfl⟩ := h
      have hfunction : IsSteady SupportLibrary.remainderFunction := ⟨by decide, by decide⟩
      have hboth : IsSteady (commaSeparated [dividend, divisor]) :=
        .commaSeparated (by
          simpa using ⟨isSteady_expression hnames hleft hdividend,
            isSteady_expression hnames hright hdivisor⟩)
      exact hfunction.append_parenthesized hboth
    · simp only [bind_eq_ok_iff, pure_eq_ok_iff] at h
      obtain ⟨first, hfirst, second, hsecond, rfl⟩ := h
      exact .binaryText setting (isSteady_expression hnames hleft hfirst)
        (isSteady_of_notMem hquote hapart) (isSteady_expression hnames hright hsecond)
  | unary _ operator argument =>
    obtain ⟨⟨hquote, hapart⟩, hargument⟩ := List.forall_mem_cons.mp hmentions
    simp only [expression, bind_eq_ok_iff, pure_eq_ok_iff] at h
    obtain ⟨content, hcontent, rfl⟩ := h
    exact .unaryText hquote hapart (isSteady_expression hnames hargument hcontent)
  | call _ callee arguments =>
    obtain ⟨hcallee, harguments⟩ := List.forall_mem_append.mp hmentions
    simp only [expression, bind_eq_ok_iff, pure_eq_ok_iff] at h
    obtain ⟨head, hhead, texts, htexts, rfl⟩ := h
    have hfront : IsSteady head := by
      cases callee with
      | identifier _ name =>
        cases hhead
        exact hnames.callee name (List.forall_mem_cons.mp hcallee).1
      | _ =>
        simp only [calleeText, bind_eq_ok_iff, pure_eq_ok_iff] at hhead
        obtain ⟨_, -, content, hcontent, rfl⟩ := hhead
        exact (isSteady_expression hnames hcallee hcontent).objectText _
    exact hfront.append_parenthesized
      (.commaSeparated (isSteady_expressions hnames harguments htexts))
  | member _ object property =>
    obtain ⟨hproperty, hobject⟩ := List.forall_mem_cons.mp hmentions
    simp only [expression, bind_eq_ok_iff, pure_eq_ok_iff] at h
    obtain ⟨_, -, content, hcontent, rfl⟩ := h
    have hname : IsSteady (mangle property) := (IsInert.mangle hproperty).isSteady
    exact ((isSteady_expression hnames hobject hcontent).objectText object).join "." hname
  | index _ object position =>
    obtain ⟨hobject, hposition⟩ := List.forall_mem_append.mp hmentions
    simp only [expression, bind_eq_ok_iff, pure_eq_ok_iff] at h
    obtain ⟨_, -, content, hcontent, offset, hoffset, rfl⟩ := h
    have hfront := (isSteady_expression hnames hobject hcontent).objectText object
    exact (hfront.join "[" (isSteady_expression hnames hposition hoffset)).before "]"
  | slice _ object lower upper =>
    simp only [Node.mentions, List.forall_mem_append] at hmentions
    obtain ⟨⟨hobject, hlower⟩, hupper⟩ := hmentions
    simp only [expression, bind_eq_ok_iff, pure_eq_ok_iff] at h
    obtain ⟨_, -, content, hcontent, first, hfirst, last, hlast, rfl⟩ := h
    have hfront := (isSteady_expression hnames hobject hcontent).objectText object
    exact .sliceText hfront (isSteady_boundText hnames hlower hfirst hfront ".begin()")
      (isSteady_boundText hnames hupper hlast hfront ".end()")
  | literal _ value =>
    cases h
    exact isSteady_cpp value
  | identifier _ name =>
    cases h
    exact hnames.reference name (List.forall_mem_cons.mp hmentions).1
  | array _ elements =>
    simp only [expression, bind_eq_ok_iff, pure_eq_ok_iff] at h
    obtain ⟨texts, htexts, rfl⟩ := h
    have hlist : IsSteady (commaSeparated texts) :=
      .commaSeparated (isSteady_expressions hnames hmentions htexts)
    exact (hlist.after "\x7b").before "\x7d"
  | _ => cases h
termination_by structural node

/-- The expressions of a list are written in a steady way. -/
theorem isSteady_expressions {names : Naming} (hnames : names.IsSteady) {nodes : List Node}
    {texts : List String} (hmentions : ∀ mention ∈ mentionsList nodes, mention.KeepsSignsApart)
    (h : expressions names nodes = .ok texts) : ∀ text ∈ texts, IsSteady text := by
  cases nodes with
  | nil => cases h; exact List.forall_mem_nil _
  | cons node rest =>
    obtain ⟨hnode, hrest⟩ := List.forall_mem_append.mp hmentions
    simp only [expressions, bind_eq_ok_iff, pure_eq_ok_iff] at h
    obtain ⟨text, htext, texts, htexts, rfl⟩ := h
    exact List.forall_mem_cons.mpr
      ⟨isSteady_expression hnames hnode htext, isSteady_expressions hnames hrest htexts⟩
termination_by structural nodes

/-- A bound of a slice is written in a steady way. -/
theorem isSteady_boundText {names : Naming} (hnames : names.IsSteady) {node? : Option Node}
    {bound : Option String} (hmentions : ∀ mention ∈ mentions? node?, mention.KeepsSignsApart)
    (h : expression? names node? = .ok bound) {object : String} (hobject : IsSteady object)
    (end_ : String) (hend : end_ ∈ separators := by simp [separators]) :
    IsSteady (boundText object end_ bound) := by
  cases node? with
  | none =>
    cases h
    exact hobject.before end_ hend
  | some node =>
    simp only [expression?, bind_eq_ok_iff, pure_eq_ok_iff] at h
    obtain ⟨offset, hoffset, rfl⟩ := h
    exact hobject.join ".begin() + " (isSteady_expression hnames hmentions hoffset)
termination_by structural node?

end

/-- **No `++` and no `--` comes about by accident.** If names and the namespace have no signs and no
quotes, and no operator has a quote or the same sign twice in a row, every expression has a text,
and outside of its string literals no sign stands twice in a row. Literals are arbitrary. -/
theorem expression_signs_apart (v : Visibility) (setting : Setting) {node : Node}
    (hnode : IsValue node) (hnamespace : IsInert v.namespaceName.toList)
    (hmentions : ∀ mention ∈ node.mentions, mention.KeepsSignsApart) :
    ∃ text, expression v.naming setting node = .ok text ∧ IsSteady text := by
  obtain ⟨text, htext⟩ := exists_text_of_isValue hnode v.naming setting
  exact ⟨text, htext, isSteady_expression (v.isSteady_naming hnamespace) hmentions htext⟩

/-- Signs meet twice here, at a negative number and at a difference that begins with a sign, and a
string holds more of them. -/
theorem negated_difference_signs_apart :
    let v : Visibility :=
      { registry := .empty, namespaceName := "app", scopes := .empty, region := .function }
    let loc : Location := ⟨"", none⟩
    let five : Node := .unary loc "-" (.literal loc (.number (.negative 4)))
    let message : Node := .literal loc (.string "--\"++\\")
    let difference : Node :=
      .binary loc "-" five (.call loc (.identifier loc "size") [message])
    let node : Node := .unary loc "-" difference
    IsValue node ∧ IsInert v.namespaceName.toList ∧
      (∀ mention ∈ node.mentions, mention.KeepsSignsApart) ∧
      (∃ text, expression v.naming .operand node = .ok text ∧ IsSteady text) ∧
      expression v.naming .operand node =
        .ok "-(-(-5) - size(\"--\\\"++\\\\\"))" := by
  intro v loc five message difference node
  have hnode : IsValue node := by
    have hcall : IsValue (.call loc (.identifier loc "size") [message]) :=
      .call (by simp [HasParts, Node.kind]) .identifier (by simpa using .literal)
    exact .unary (.binary (.unary .literal) hcall)
  have hnamespace : IsInert v.namespaceName.toList := by decide
  have hmentions : ∀ mention ∈ node.mentions, mention.KeepsSignsApart := by decide
  exact ⟨hnode, hnamespace, hmentions,
    expression_signs_apart v .operand hnode hnamespace hmentions, by decide +kernel⟩

end TreeToCpp
