import Mathlib.Data.List.Forall2
import TreeToCpp.Proofs.ExpressionReader

/-!
# What the reader recognizes

The lemmas of this file say, form by form, which texts the reader recognizes and as what. None of
them mentions how a program is written; they are about pieces of text and what may stand behind
them.

There are three degrees of being recognized. Behind an object, calls and accesses may follow; behind
an operand, they may not, but an operator may; behind a delimited expression, only what the text
around it is made of. Each degree gives the next, and parentheses lead from the last back to the
first.

## Main definitions

* `Reader.IsObject`, `Reader.IsOperand`, `Reader.IsDelimited` — degrees of being recognized
* `Reader.IsList` — lists of expressions

## Main results

* `Reader.IsDelimited.group`, `Reader.IsObject.isOperand`, `Reader.IsOperand.isDelimited` — from one
  degree to another
* `Reader.IsOperand.binary`, `Reader.IsOperand.unary`, `Reader.IsObject.call`, ... — one for each
  form of expression
-/

namespace TreeToCpp

namespace Reader

/-! ## Where a piece of text ends -/

/-- What may stand behind an object. -/
def boundaries : List Char := ['.', '(', '[', ')', ']', '\x7d', ',', ' ']

/-- What may stand behind an operand. -/
def closers : List Char := [')', ']', '\x7d', ',', ' ']

/-- A text that continues no name and no number. -/
def BehindObject (rest : List Char) : Prop :=
  ∀ c ∈ rest.head?, c ∈ boundaries

/-- A text that continues no object. -/
def BehindOperand (rest : List Char) : Prop :=
  ∀ c ∈ rest.head?, c ∈ closers

/-- A text that continues no expression. -/
def BehindExpression (rest : List Char) : Prop :=
  BehindOperand rest ∧ binaryOperator? rest = none

theorem BehindOperand.behindObject {rest : List Char} (h : BehindOperand rest) :
    BehindObject rest := by
  intro c hc
  have hsubset : closers ⊆ boundaries := by decide
  exact hsubset (h c hc)

theorem BehindObject.ends {rest : List Char} (h : BehindObject rest) :
    ∀ c ∈ rest.head?, isIdentifierRest c = false ∧ c.isDigit = false ∧ c ≠ ':' := by
  intro c hc
  have hboundaries : boundaries.all fun c => !isIdentifierRest c && !c.isDigit && c != ':' := rfl
  simpa [and_assoc] using List.all_eq_true.mp hboundaries c (h c hc)

theorem behindExpression_closer {bracket : Char} (h : bracket ∈ [')', ']', '\x7d', ','])
    (rest : List Char) : BehindExpression (bracket :: rest) := by
  simp only [List.mem_cons, List.not_mem_nil, or_false] at h
  refine ⟨?_, ?_⟩
  · rcases h with rfl | rfl | rfl | rfl <;> simp [BehindOperand, closers]
  · rcases h with rfl | rfl | rfl | rfl <;> rfl

theorem behindExpression_nil : BehindExpression [] := ⟨nofun, rfl⟩

theorem behindExpression_assignment (rest : List Char) :
    BehindExpression (' ' :: '=' :: ' ' :: rest) :=
  ⟨by simp [BehindOperand, closers], rfl⟩

/-- The longest beginning of a text whose characters have a property. -/
theorem span_append {p : Char → Bool} {text rest : List Char} (htext : ∀ c ∈ text, p c = true)
    (hrest : ∀ c ∈ rest.head?, p c = false) :
    (text ++ rest).takeWhile p = text ∧ (text ++ rest).dropWhile p = rest := by
  rw [List.takeWhile_append_of_pos htext, List.dropWhile_append_of_pos htext]
  cases rest with
  | nil => simp
  | cons c rest => simp [hrest c rfl]

/-! ## Degrees -/

/-- The text of an object. Calls and accesses may follow. -/
def IsObject (text : List Char) (node : Node) : Prop :=
  ∀ rest, BehindObject rest →
    Leads (fun fuel => operand fuel (text ++ rest)) (fun fuel => accesses fuel node rest)

/-- The text of an operand. -/
def IsOperand (text : List Char) (node : Node) : Prop :=
  ∀ rest, BehindOperand rest →
    Leads (fun fuel => operand fuel (text ++ rest)) (fun _ => some (node, rest))

/-- The text of an expression, where the text around it says how far it reaches. -/
def IsDelimited (text : List Char) (node : Node) : Prop :=
  ∀ rest, BehindExpression rest →
    Leads (fun fuel => expression fuel (text ++ rest)) (fun _ => some (node, rest))

/-- The text of a list in front of its bracket. -/
def IsList (bracket : Char) (text : List Char) (nodes : List Node) : Prop :=
  ∀ rest, Leads (fun fuel => list fuel bracket (text ++ bracket :: rest))
    (fun _ => some (nodes, rest))

variable {text text' : List Char} {node node' : Node}

theorem accesses_behindOperand {rest : List Char} (hrest : BehindOperand rest) (node : Node)
    (fuel : Nat) : accesses (fuel + 1) node rest = some (node, rest) := by
  cases rest with
  | nil => rfl
  | cons c rest =>
    have hc : c ∈ closers := hrest c rfl
    simp only [closers, List.mem_cons, List.not_mem_nil, or_false] at hc
    rcases hc with rfl | rfl | rfl | rfl | rfl <;> rfl

theorem IsObject.isOperand (h : IsObject text node) : IsOperand text node := fun rest hrest =>
  (h rest hrest.behindObject).trans (.of_succ (accesses_behindOperand hrest node))

theorem IsOperand.isDelimited (h : IsOperand text node) : IsDelimited text node := by
  rintro rest ⟨hrest, hoperator⟩
  refine .trans (.of_succ fun _ => rfl) ((h rest hrest).bind.trans (.of_eq fun _ => ?_))
  simp [hoperator]

theorem binaryOperator?_append {operator : String} (h : operator ∈ binaryOperators)
    (rest : List Char) :
    binaryOperator? (' ' :: (operator.toList ++ ' ' :: rest)) = some (operator, rest) := by
  have hblanks : binaryOperators.all fun operator => operator.toList.all (· != ' ') := rfl
  have hblank := List.all_eq_true.mp (List.all_eq_true.mp hblanks operator h)
  obtain ⟨htake, hdrop⟩ := span_append hblank
    (by simp : ∀ c ∈ (' ' :: rest).head?, (c != ' ') = false)
  simp [binaryOperator?, htake, hdrop, h]

theorem IsOperand.binary {operator : String} (hoperator : operator ∈ binaryOperators)
    (hleft : IsOperand text node) (hright : IsOperand text' node') :
    IsDelimited (text ++ ' ' :: (operator.toList ++ ' ' :: text'))
      (.binary .unknown operator node node') := by
  rintro rest ⟨hrest, -⟩
  have hbetween : BehindOperand (' ' :: (operator.toList ++ ' ' :: (text' ++ rest))) := by
    simp [BehindOperand, closers]
  simp only [List.append_assoc, List.cons_append]
  refine .trans (.of_succ fun _ => rfl) ((hleft _ hbetween).bind.trans ?_)
  simp only [binaryOperator?_append hoperator]
  exact (hright rest hrest).bind

theorem IsOperand.unary {c : Char} (hc : c ∈ unaryOperators) (h : IsOperand text node) :
    IsOperand (c :: text) (.unary .unknown (String.singleton c) node) := by
  intro rest hrest
  have hargument := h rest hrest
  simp only [unaryOperators, List.mem_cons, List.not_mem_nil, or_false] at hc
  rcases hc with rfl | rfl | rfl | rfl | rfl | rfl
  all_goals exact .trans (.of_succ fun _ => rfl) hargument.bind

theorem IsDelimited.group (h : IsDelimited text node) :
    IsObject ('(' :: (text ++ [')'])) (group node) := by
  intro rest _
  have hinner := h (')' :: rest) (behindExpression_closer (by decide) rest)
  simp only [List.cons_append, List.append_assoc, List.nil_append]
  exact .trans (.of_succ fun _ => rfl) (hinner.bind.trans (.of_eq fun _ => rfl))

/-- A name is read up to its end. -/
theorem word_append {name : String} (hname : ∀ c ∈ name.toList, isIdentifierRest c = true)
    {rest : List Char} (hrest : ∀ c ∈ rest.head?, isIdentifierRest c = false) :
    word (name.toList ++ rest) = (name, rest) := by
  obtain ⟨htake, hdrop⟩ := span_append hname hrest
  rw [word, htake, hdrop, String.ofList_toList]

theorem IsObject.member {property : String} (h : IsObject text node)
    (hproperty : ∀ c ∈ property.toList, isIdentifierRest c = true) :
    IsObject (text ++ '.' :: property.toList) (.member .unknown node property) := by
  intro rest hrest
  have hbetween : BehindObject ('.' :: (property.toList ++ rest)) := by
    simp [BehindObject, boundaries]
  have hword := word_append hproperty fun c hc => (hrest.ends c hc).1
  simp only [List.cons_append, List.append_assoc]
  refine .trans (h _ hbetween) (.of_succ fun fuel => ?_)
  simp [accesses, hword]

theorem IsObject.index (h : IsObject text node) (hposition : IsDelimited text' node') :
    IsObject (text ++ '[' :: (text' ++ [']'])) (.index .unknown node node') := by
  intro rest hrest
  have hinner := hposition (']' :: rest) (behindExpression_closer (by decide) rest)
  have hbetween : BehindObject ('[' :: (text' ++ ']' :: rest)) := by simp [BehindObject, boundaries]
  simp only [List.cons_append, List.append_assoc, List.nil_append]
  refine .trans (h _ hbetween) (.trans (.of_succ fun _ => rfl) ?_)
  exact hinner.bind.trans (.of_eq fun _ => rfl)

theorem IsObject.call {nodes : List Node} (h : IsObject text node)
    (harguments : IsList ')' text' nodes) :
    IsObject (text ++ '(' :: (text' ++ [')'])) (.call .unknown node nodes) := by
  intro rest hrest
  have hbetween : BehindObject ('(' :: (text' ++ ')' :: rest)) := by simp [BehindObject, boundaries]
  simp only [List.cons_append, List.append_assoc, List.nil_append]
  refine .trans (h _ hbetween) (.trans (.of_succ fun _ => rfl) ?_)
  exact (harguments rest).bind

/-! ## Lists -/

theorem expression_bracket {bracket : Char} (h : bracket ∈ [')', '\x7d']) (rest : List Char)
    (fuel : Nat) : expression fuel (bracket :: rest) = none := by
  simp only [List.mem_cons, List.not_mem_nil, or_false] at h
  rcases fuel with _ | _ | fuel
  · rfl
  · rfl
  · rcases h with rfl | rfl <;> rfl

theorem expression_nil (fuel : Nat) : expression fuel [] = none := by
  rcases fuel with _ | _ | fuel <;> rfl

/-- No expression is empty or starts with a closing bracket, as nothing would be read there. -/
theorem IsDelimited.closed? {bracket : Char} (hbracket : bracket ∈ [')', '\x7d'])
    (h : IsDelimited text node) (rest : List Char) : closed? bracket (text ++ rest) = none := by
  have hreads := h [] behindExpression_nil
  cases text with
  | nil =>
    have hnone : Leads (fun fuel => expression fuel []) (fun _ => none) := .of_eq expression_nil
    exact nomatch hreads.unique hnone
  | cons c text =>
    have hc : c ≠ bracket := by
      rintro rfl
      have hnone := Leads.of_eq (expression_bracket hbracket (text ++ []))
      exact nomatch hreads.unique hnone
    simp [Reader.closed?, hc]

theorem isList_nil (bracket : Char) : IsList bracket [] [] := fun _ =>
  .of_succ fun _ => by simp [list, closed?]

/-- The texts of the items of a list, with commas between them. -/
theorem items_intercalate {bracket : Char} (hbracket : bracket ∈ [')', '\x7d'])
    {texts : List (List Char)} {nodes : List Node} (h : List.Forall₂ IsDelimited texts nodes)
    (hne : texts ≠ []) (rest : List Char) :
    Leads (fun fuel => items fuel bracket ([',', ' '].intercalate texts ++ bracket :: rest))
      (fun _ => some (nodes, rest)) := by
  have hcloser : ([')', '\x7d'] : List Char) ⊆ [')', ']', '\x7d', ','] := by decide
  have hcomma : ∀ rest, Reader.closed? bracket (',' :: rest) = none := by
    have hne : ',' ≠ bracket := by
      rintro rfl
      exact absurd hbracket (by decide)
    simp [Reader.closed?, hne]
  induction h with
  | nil => exact absurd rfl hne
  | cons hitem hmore ih =>
    cases hmore with
    | nil =>
      have hreads := hitem _ (behindExpression_closer (hcloser hbracket) rest)
      rw [List.intercalate_singleton]
      refine .trans (.of_succ fun _ => rfl) (hreads.bind.trans (.of_eq fun _ => ?_))
      simp [Reader.closed?]
    | cons =>
      have hreads := fun rest => hitem _ (behindExpression_closer (by decide : ',' ∈ _) rest)
      rw [List.intercalate_cons_cons]
      simp only [List.append_assoc, List.cons_append, List.nil_append]
      refine .trans (.of_succ fun _ => rfl) ((hreads _).bind.trans ?_)
      simp only [hcomma]
      exact (ih (by simp)).bind

theorem isList_intercalate {bracket : Char} (hbracket : bracket ∈ [')', '\x7d'])
    {texts : List (List Char)} {nodes : List Node} (h : List.Forall₂ IsDelimited texts nodes) :
    IsList bracket ([',', ' '].intercalate texts) nodes := by
  intro rest
  cases h with
  | nil => exact isList_nil bracket rest
  | @cons text node texts nodes hitem hmore =>
    have hitems := items_intercalate hbracket (.cons hitem hmore) (by simp) rest
    obtain ⟨more, hfirst⟩ : ∃ more, [',', ' '].intercalate (text :: texts) = text ++ more := by
      cases texts with
      | nil => exact ⟨[], by simp⟩
      | cons => exact ⟨_, by rw [List.intercalate_cons_cons, List.append_assoc]⟩
    have hopen : Reader.closed? bracket
        ([',', ' '].intercalate (text :: texts) ++ bracket :: rest) = none := by
      rw [hfirst, List.append_assoc]
      exact hitem.closed? hbracket _
    refine .trans (.of_succ fun fuel => ?_) hitems
    simp only [list, hopen]

theorem IsList.array {nodes : List Node} (h : IsList '\x7d' text nodes) :
    IsObject ('\x7b' :: (text ++ ['\x7d'])) (.array .unknown nodes) := by
  intro rest _
  simp only [List.cons_append, List.append_assoc, List.nil_append]
  exact .trans (.of_succ fun _ => rfl) (h rest).bind

/-! ## The beginning of an operand -/

/-- An operand that starts with neither a bracket nor an operator starts with a head. -/
theorem operand_of_head? {head : Head} {rest : List Char} (h : head? text = some (head, rest))
    (fuel : Nat) : operand (fuel + 1) text = behindHead fuel head rest := by
  simp only [operand]
  split
  case h_1 | h_2 | h_3 => contradiction
  case h_4 c text _ _ =>
    have hc : c ∉ unaryOperators := by
      intro hc
      simp only [unaryOperators, List.mem_cons, List.not_mem_nil, or_false] at hc
      rcases hc with rfl | rfl | rfl | rfl | rfl | rfl <;> contradiction
    simp [hc, h]

theorem isObject_of_head? (h : ∀ rest, BehindObject rest →
    head? (text ++ rest) = some (.value node, rest)) : IsObject text node := fun rest hrest =>
  .trans (.of_succ (operand_of_head? (h rest hrest))) (.of_succ fun _ => rfl)

theorem isObject_quoted (value : String) :
    IsObject (quoted value).toList (.literal .unknown (.string value)) := by
  refine isObject_of_head? fun rest _ => ?_
  rw [toList_quoted]
  simp [head?, unquote_flatMap_escape]

/-- No digit opens an identifier. -/
theorem isDigit_of_isIdentifierStart {c : Char} (hc : isIdentifierStart c = true) :
    c.isDigit = false := by
  rw [← Bool.not_eq_true]
  intro hdigit
  obtain ⟨hlow, hhigh⟩ := Char.isDigit_iff_toNat.mp hdigit
  change 48 ≤ c.toNat at hlow
  change c.toNat ≤ 57 at hhigh
  have hdigits : ∀ d < 10, isIdentifierStart (Char.ofNat (48 + d)) = false := by decide
  have hstart := hdigits (c.toNat - 48) (by omega)
  rw [Nat.add_sub_cancel' hlow, Char.ofNat_toNat, hc] at hstart
  contradiction

theorem isIdentifierRest_of_isIdentifierStart {c : Char} (hc : isIdentifierStart c = true) :
    isIdentifierRest c = true := by
  rw [isIdentifierStart, Bool.or_eq_true] at hc
  rw [isIdentifierRest, Char.isAlphanum, Bool.or_eq_true, Bool.or_eq_true]
  exact hc.imp_left .inl

theorem isIdentifier_iff {name : String} :
    isIdentifier name = true ↔
      (∃ c, name.toList.head? = some c ∧ isIdentifierStart c = true) ∧
        ∀ c ∈ name.toList, isIdentifierRest c = true := by
  rw [isIdentifier]
  cases name.toList with
  | nil => simp
  | cons c text =>
    simp only [List.head?_cons, Option.some.injEq, exists_eq_left', List.forall_mem_cons,
      Bool.and_eq_true, List.all_eq_true]
    constructor
    · rintro ⟨hc, htext⟩
      exact ⟨hc, isIdentifierRest_of_isIdentifierStart hc, htext⟩
    · rintro ⟨hc, -, htext⟩
      exact ⟨hc, htext⟩

theorem head?_of_isDigit (h : ∃ c, text.head? = some c ∧ c.isDigit = true) :
    head? text = some (.value (number text).1, (number text).2) := by
  obtain ⟨c, hc, hdigit⟩ := h
  cases text with
  | nil => contradiction
  | cons d text =>
    obtain rfl : d = c := by simpa using hc
    have hquote : d ≠ '"' := by
      rintro rfl
      contradiction
    simp [head?, hquote, hdigit]

theorem head?_of_isIdentifierStart (h : ∃ c, text.head? = some c ∧ isIdentifierStart c = true) :
    head? text = some (nameHead text) := by
  obtain ⟨c, hc, hstart⟩ := h
  cases text with
  | nil => contradiction
  | cons d text =>
    obtain rfl : d = c := by simpa using hc
    have hquote : d ≠ '"' := by
      rintro rfl
      contradiction
    simp [head?, hquote, hstart, isDigit_of_isIdentifierStart hstart]

theorem isObject_number (value : UInt64) :
    IsObject (toString value.toNat).toList (.literal .unknown (.number (.natural value))) := by
  have htext : (toString value.toNat).toList = Nat.toDigits 10 value.toNat := Nat.toList_repr
  have hdigits : ∀ c ∈ Nat.toDigits 10 value.toNat, c.isDigit = true := fun c =>
    Nat.isDigit_of_mem_toDigits (by decide) (by decide)
  refine isObject_of_head? fun rest hrest => ?_
  obtain ⟨htake, hdrop⟩ := span_append hdigits fun c hc => (hrest.ends c hc).2.1
  have hnumber : number (Nat.toDigits 10 value.toNat ++ rest) =
      (.literal .unknown (.number (.natural value)), rest) := by
    rw [number, htake, hdrop, Nat.ofDigitChars_toDigits (by decide) (by decide),
      UInt64.ofNat_toNat]
  rw [htext, head?_of_isDigit, hnumber]
  obtain ⟨c, digits, hcons⟩ := List.exists_cons_of_ne_nil (Nat.toDigits_ne_nil (n := value.toNat))
  rw [hcons] at hdigits ⊢
  exact ⟨c, rfl, hdigits c List.mem_cons_self⟩

theorem head?_name {name : String} (hname : isIdentifier name = true) (rest : List Char) :
    head? (name.toList ++ rest) = some (nameHead (name.toList ++ rest)) := by
  obtain ⟨⟨c, hc, hstart⟩, -⟩ := isIdentifier_iff.mp hname
  refine head?_of_isIdentifierStart ⟨c, ?_, hstart⟩
  rw [List.head?_append]
  simp [Option.mem_def.mp hc]

theorem isObject_name {name : String} (hname : isIdentifier name = true) :
    IsObject name.toList (wordValue name) := by
  refine isObject_of_head? fun rest hrest => ?_
  have hword := word_append (isIdentifier_iff.mp hname).2 fun c hc => (hrest.ends c hc).1
  rw [head?_name hname, nameHead, hword]
  split
  case h_1 heq =>
    obtain ⟨-, rfl⟩ := Prod.mk.inj heq
    exact absurd rfl (hrest.ends ':' rfl).2.2
  case h_2 heq =>
    obtain ⟨rfl, rfl⟩ := Prod.mk.inj heq
    rfl

theorem head?_qualified {qualifier name : String} (hqualifier : isIdentifier qualifier = true)
    (hname : isIdentifier name = true) {rest : List Char} (hrest : BehindObject rest) :
    head? ((qualifier ++ "::" ++ name).toList ++ rest) =
      some (if qualifier = "std" then .remainder else .value (.identifier .unknown name),
        rest) := by
  have htext : (qualifier ++ "::" ++ name).toList ++ rest =
      qualifier.toList ++ ':' :: ':' :: (name.toList ++ rest) := by simp
  have hcolon : ∀ c ∈ (':' :: ':' :: (name.toList ++ rest)).head?, isIdentifierRest c = false := by
    simp [isIdentifierRest]
  have hfirst := word_append (isIdentifier_iff.mp hqualifier).2 hcolon
  have hsecond := word_append (isIdentifier_iff.mp hname).2 fun c hc => (hrest.ends c hc).1
  rw [htext, head?_name hqualifier, nameHead, hfirst]
  simp only [hsecond]
  split <;> rfl

theorem isObject_qualified {qualifier name : String} (hqualifier : isIdentifier qualifier = true)
    (hstd : qualifier ≠ "std") (hname : isIdentifier name = true) :
    IsObject (qualifier ++ "::" ++ name).toList (.identifier .unknown name) := by
  refine isObject_of_head? fun rest hrest => ?_
  rw [head?_qualified hqualifier hname hrest, if_neg hstd]

theorem IsList.remainder (h : IsList ')' text [node, node']) :
    IsObject ("std::fmod".toList ++ '(' :: (text ++ [')']))
      (.binary .unknown remainderOperator node node') := by
  intro rest _
  have hstd : isIdentifier "std" = true := by decide
  have hfmod : isIdentifier "fmod" = true := by decide
  have hbetween : BehindObject ('(' :: (text ++ ')' :: rest)) := by simp [BehindObject, boundaries]
  have hhead : head? ("std::fmod".toList ++ '(' :: (text ++ ')' :: rest)) =
      some (.remainder, '(' :: (text ++ ')' :: rest)) := head?_qualified hstd hfmod hbetween
  simp only [List.append_assoc, List.cons_append, List.nil_append]
  refine .trans (.of_succ (operand_of_head? hhead)) (.trans (.of_succ fun _ => rfl) ?_)
  exact (h rest).bind

/-- The receiver is read as the name it has in the source. -/
theorem isObject_receiver :
    IsObject receiverText.toList (.identifier .unknown receiverName) := by
  have hthis : IsObject "this".toList (.identifier .unknown "this") := isObject_name (by decide)
  exact (hthis.isOperand.unary (by decide : '*' ∈ unaryOperators)).isDelimited.group

end Reader

end TreeToCpp
