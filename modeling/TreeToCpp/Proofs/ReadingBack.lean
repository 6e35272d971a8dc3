import TreeToCpp.Proofs.Acceptance
import TreeToCpp.Proofs.Outcome
import TreeToCpp.Proofs.Recognition

/-!
# Expressions can be read back

On the expressions that are written with all the parentheses they need, the text says everything
that matters: which operators apply to which operands, what is called with which arguments, and where a
string ends. Two such expressions with the same text differ at most in locations and in names that
are written alike.

The proof reads the text back. Every expression of this kind is recognized by the reader as its
canonical form, by induction on the expression; a text cannot be read in two ways, so the canonical
forms agree. The induction carries all three degrees of being recognized, since an expression is
written in one way as an operand and in another as an object.

## Main definitions

* `IsReadable`, `IsReadableWhole` — the expressions that are read back
* `Spells` — how a name may be written
* `ReadsBack` — an expression is recognized wherever it is written

## Main results

* `IsReadable.readsBack` — readable expressions are recognized
* `canonical_eq_of_expression_eq` — the text determines the canonical form
-/

namespace TreeToCpp

open Reader

/-! ## Readable expressions -/

/-- An expression that is written with all the parentheses it needs. A unary operator gives its
argument none, so the argument must not be a binary expression. -/
inductive IsReadable : Node → Prop
  | identifier {loc name} : isIdentifier name = true → IsReadable (.identifier loc name)
  | string {loc value} : IsReadable (.literal loc (.string value))
  | boolean {loc value} : IsReadable (.literal loc (.boolean value))
  | null {loc} : IsReadable (.literal loc .null)
  | natural {loc value} : IsReadable (.literal loc (.number (.natural value)))
  | array {loc elements} :
      (∀ element ∈ elements, IsReadable element) → IsReadable (.array loc elements)
  | call {loc callee arguments} :
      HasParts callee → IsReadable callee → (∀ argument ∈ arguments, IsReadable argument) →
      IsReadable (.call loc callee arguments)
  | member {loc object property} :
      HasParts object → IsReadable object → isIdentifier property = true →
      IsReadable (.member loc object property)
  | index {loc object position} :
      HasItems object → IsReadable object → IsReadable position →
      IsReadable (.index loc object position)
  | binary {loc operator left right} :
      operator ∈ binaryOperators → IsReadable left → IsReadable right →
      IsReadable (.binary loc operator left right)
  | remainder {loc left right} :
      IsReadable left → IsReadable right → IsReadable (.binary loc remainderOperator left right)
  | unary {loc c argument} :
      c ∈ unaryOperators → argument.kind ≠ .binary → IsReadable argument →
      IsReadable (.unary loc (String.singleton c) argument)

/-- A readable expression, or an assignment of one to another. -/
inductive IsReadableWhole : Node → Prop
  | value {node} : IsReadable node → IsReadableWhole node
  | assign {loc left right} :
      IsReadable left → IsReadable right → IsReadableWhole (.assign loc left right)

theorem IsReadable.isValue {node : Node} (h : IsReadable node) : IsValue node := by
  induction h with
  | identifier => exact .identifier
  | string | boolean | null | natural => exact .literal
  | array _ ih => exact .array ih
  | call hparts _ _ hcallee harguments => exact .call hparts hcallee harguments
  | member hparts _ _ hobject => exact .member hparts hobject
  | index hitems _ _ hobject hposition => exact .index hitems hobject hposition
  | binary _ _ _ hleft hright => exact .binary hleft hright
  | remainder _ _ hleft hright => exact .binary hleft hright
  | unary _ _ _ hargument => exact .unary hargument

theorem IsReadableWhole.isValue {node : Node} (h : IsReadableWhole node) : IsValue node := by
  cases h with
  | value h => exact h.isValue
  | assign hleft hright => exact .assign hleft.isValue hright.isValue

/-! ## Names -/

theorem isIdentifier_mangle {name : String} (h : isIdentifier name = true) :
    isIdentifier (mangle name) = true := by
  refine mangle_cases (motive := fun text => isIdentifier text = true) h ?_
  obtain ⟨⟨c, hc, hstart⟩, hrest⟩ := isIdentifier_iff.mp h
  refine isIdentifier_iff.mpr ⟨⟨c, ?_, hstart⟩, ?_⟩
  · rw [String.toList_append, List.head?_append, hc, Option.some_or]
  · rw [String.toList_append, List.forall_mem_append]
    exact ⟨hrest, by simp [escapeSuffix, isIdentifierRest]⟩

/-- Since no reserved word is written for a name, a written name is read as a name. -/
theorem wordValue_mangle (name : String) :
    wordValue (mangle name) = .identifier .unknown (mangle name) := by
  have hmangle := isReserved_mangle name
  simp only [wordValue]
  split
  case h_1 heq | h_2 heq | h_3 heq => rw [heq] at hmangle; contradiction
  case h_4 => rfl

/-- Parentheses are read as the receiver only where the receiver is written. -/
theorem group_canonical (node : Node) : group node.canonical = node.canonical := by
  simp only [group]
  split
  case h_1 heq =>
    cases node with
    | unary loc operator argument =>
      cases argument with
      | identifier loc name =>
        have hmangle := isReserved_mangle name
        simp only [Node.canonical, Node.unary.injEq, Node.identifier.injEq] at heq
        rw [heq.2.2.2] at hmangle
        contradiction
      | _ => simp [Node.canonical] at heq
    | _ => simp [Node.canonical] at heq
  case h_2 => rfl

/-- How a name may be written. -/
inductive Spells (name : String) : String → Prop
  | bare : Spells name (mangle name)
  | qualified {qualifier : String} :
      isIdentifier qualifier = true → qualifier ≠ "std" →
      Spells name (qualifier ++ "::" ++ mangle name)
  | receiver : name = receiverName → Spells name receiverText

theorem Spells.isObject {name text : String} (h : Spells name text)
    (hname : isIdentifier name = true) :
    IsObject text.toList (.identifier .unknown (mangle name)) := by
  have hmangle := isIdentifier_mangle hname
  cases h with
  | bare =>
    rw [← wordValue_mangle]
    exact isObject_name hmangle
  | qualified hqualifier hstd => exact isObject_qualified hqualifier hstd hmangle
  | receiver heq =>
    subst heq
    exact isObject_receiver

theorem Helper.name_of_ofName? {helper : Helper} {name : String} (h : ofName? name = some helper) :
    helper.name = name := by
  simpa using List.find?_some h

/-- A helper is written like a name of the top level of its library. -/
theorem Helper.qualified_eq (helper : Helper) :
    helper.qualified = SupportLibrary.namespaceName ++ "::" ++ mangle helper.name := by
  cases helper
  decide

namespace Visibility

variable {v : Visibility}

theorem spells_reference (hidentifier : isIdentifier v.namespaceName = true)
    (hstd : v.namespaceName ≠ "std") (name : String) : Spells name (v.reference name) := by
  rw [reference]
  split
  next heq => exact .receiver heq
  next =>
    split
    · split
      · exact .qualified hidentifier hstd
      · exact .bare
    · exact .bare

theorem spells_callee (hidentifier : isIdentifier v.namespaceName = true)
    (hstd : v.namespaceName ≠ "std") (name : String) : Spells name (v.naming.callee name) := by
  simp only [naming, Naming.ofReference]
  split
  next helper heq =>
    rw [← Helper.name_of_ofName? heq, Helper.qualified_eq]
    exact .qualified (by decide) (by decide)
  next => exact spells_reference hidentifier hstd name

end Visibility

/-! ## Every readable expression is recognized -/

/-- Wherever an expression is written, the reader recognizes it as its canonical form. -/
structure ReadsBack (names : Naming) (node : Node) : Prop where
  /-- Where the text around it says how far it reaches. -/
  delimited : ∀ {text}, expression names .delimited node = .ok text →
    IsDelimited text.toList node.canonical
  /-- As an operand of a binary operator. -/
  operand : ∀ {text}, expression names .operand node = .ok text →
    IsOperand text.toList node.canonical
  /-- As the object of an access or a call. -/
  object : ∀ {text}, expression names .delimited node = .ok text →
    IsObject (objectText node text).toList node.canonical

theorem toList_parenthesized (text : String) :
    (parenthesized text).toList = '(' :: (text.toList ++ [')']) := by
  simp [parenthesized]

theorem toList_commaSeparated (texts : List String) :
    (commaSeparated texts).toList = [',', ' '].intercalate (texts.map String.toList) := by
  simp [commaSeparated]

namespace ReadsBack

variable {names : Naming} {node left right : Node}

/-- An expression that is written the same way everywhere. -/
theorem of_object (hoperand : expression names .operand node = expression names .delimited node)
    (hobject : ∀ text, objectText node text = text)
    (h : ∀ {text}, expression names .delimited node = .ok text →
      IsObject text.toList node.canonical) : ReadsBack names node where
  delimited htext := (h htext).isOperand.isDelimited
  operand htext := (h (hoperand ▸ htext)).isOperand
  object htext := by
    rw [hobject]
    exact h htext

/-- An expression that goes in parentheses as an object. -/
theorem of_delimited
    (hobject : ∀ text, objectText node text = parenthesized text)
    (hdelimited : ∀ {text}, expression names .delimited node = .ok text →
      IsDelimited text.toList node.canonical)
    (hoperand : ∀ {text}, expression names .operand node = .ok text →
      IsOperand text.toList node.canonical) : ReadsBack names node where
  delimited := hdelimited
  operand := hoperand
  object htext := by
    rw [hobject, toList_parenthesized, ← group_canonical]
    exact (hdelimited htext).group

theorem expressions {nodes : List Node} {texts : List String}
    (h : ∀ node ∈ nodes, ReadsBack names node)
    (htexts : TreeToCpp.expressions names nodes = .ok texts) :
    List.Forall₂ IsDelimited (texts.map String.toList) (canonicals nodes) := by
  induction nodes generalizing texts with
  | nil =>
    obtain rfl : [] = texts := pure_eq_ok_iff.mp htexts
    exact .nil
  | cons node rest ih =>
    obtain ⟨text, htext, hmore⟩ := bind_eq_ok_iff.mp htexts
    obtain ⟨texts', htexts', hcons⟩ := bind_eq_ok_iff.mp hmore
    obtain rfl := pure_eq_ok_iff.mp hcons
    rw [List.forall_mem_cons] at h
    exact .cons (h.1.delimited htext) (ih h.2 htexts')

theorem binary {loc : Location} {operator : String} (hoperator : operator ∈ binaryOperators)
    (hleft : ReadsBack names left) (hright : ReadsBack names right) :
    ReadsBack names (.binary loc operator left right) := by
  have hremainder : operator ≠ remainderOperator := by
    rintro rfl
    exact absurd hoperator (by decide)
  have htexts : ∀ {setting text}, expression names setting (.binary loc operator left right) =
      .ok text → ∃ first second, text = binaryText setting operator first second ∧
        IsDelimited (binaryText .delimited operator first second).toList
          (.binary .unknown operator left.canonical right.canonical) := by
    intro setting text htext
    rw [expression, if_neg hremainder] at htext
    obtain ⟨first, hfirst, hmore⟩ := bind_eq_ok_iff.mp htext
    obtain ⟨second, hsecond, htext⟩ := bind_eq_ok_iff.mp hmore
    refine ⟨first, second, (pure_eq_ok_iff.mp htext).symm, ?_⟩
    have h := (hleft.operand hfirst).binary hoperator (hright.operand hsecond)
    simpa [binaryText, String.append_assoc] using h
  refine of_delimited (fun _ => rfl) ?_ ?_
  · intro text htext
    obtain ⟨first, second, rfl, h⟩ := htexts htext
    exact h
  · intro text htext
    obtain ⟨first, second, rfl, h⟩ := htexts htext
    rw [binaryText, toList_parenthesized, ← group_canonical]
    exact h.group.isOperand

theorem remainder {loc : Location} (hleft : ReadsBack names left)
    (hright : ReadsBack names right) :
    ReadsBack names (.binary loc remainderOperator left right) := by
  have htexts : ∀ {setting text}, expression names setting
      (.binary loc remainderOperator left right) = .ok text →
      IsObject text.toList (.binary .unknown remainderOperator left.canonical right.canonical) := by
    intro setting text htext
    rw [expression, if_pos rfl] at htext
    obtain ⟨dividend, hdividend, hmore⟩ := bind_eq_ok_iff.mp htext
    obtain ⟨divisor, hdivisor, htext⟩ := bind_eq_ok_iff.mp hmore
    obtain rfl := pure_eq_ok_iff.mp htext
    have hlist := isList_intercalate (by decide : ')' ∈ _)
      (.cons (hleft.delimited hdividend) (.cons (hright.delimited hdivisor) .nil))
    rw [String.toList_append, toList_parenthesized, toList_commaSeparated]
    exact hlist.remainder
  exact of_delimited (fun _ => rfl) (fun htext => (htexts htext).isOperand.isDelimited)
    fun htext => (htexts htext).isOperand

/-- Only binary expressions put themselves in parentheses. -/
theorem expression_setting (h : node.kind ≠ .binary) (setting : Setting) :
    expression names setting node = expression names .delimited node := by
  cases node with
  | binary => exact absurd rfl h
  | _ => rfl

theorem unary {loc : Location} {c : Char} (hc : c ∈ unaryOperators) (hkind : node.kind ≠ .binary)
    (h : ReadsBack names node) : ReadsBack names (.unary loc (String.singleton c) node) := by
  have htexts : ∀ {setting text}, expression names setting
      (.unary loc (String.singleton c) node) = .ok text →
      IsOperand text.toList (.unary .unknown (String.singleton c) node.canonical) := by
    intro setting text htext
    rw [expression] at htext
    obtain ⟨argument, hargument, htext⟩ := bind_eq_ok_iff.mp htext
    obtain rfl := pure_eq_ok_iff.mp htext
    have hoperand := (expression_setting hkind .operand).trans hargument
    rw [unaryText]
    split
    · rw [String.toList_append, String.toList_singleton, toList_parenthesized, ← group_canonical]
      exact (h.delimited hargument).group.isOperand.unary hc
    · rw [String.toList_append, String.toList_singleton]
      exact (h.operand hoperand).unary hc
  exact of_delimited (fun _ => rfl) (fun htext => (htexts htext).isDelimited) htexts

theorem literal {loc : Location} {value : Literal}
    (h : IsObject value.cpp.toList (.literal .unknown value)) :
    ReadsBack names (.literal loc value) := by
  refine of_object rfl (fun _ => rfl) fun {text} htext => ?_
  obtain rfl := pure_eq_ok_iff.mp htext
  exact h

theorem array {loc : Location} {elements : List Node}
    (h : ∀ element ∈ elements, ReadsBack names element) :
    ReadsBack names (.array loc elements) := by
  refine of_object rfl (fun _ => rfl) fun {text} htext => ?_
  obtain ⟨texts, htexts, htext⟩ := bind_eq_ok_iff.mp htext
  obtain rfl := pure_eq_ok_iff.mp htext
  have hlist := isList_intercalate (by decide : '\x7d' ∈ _) (expressions h htexts)
  rw [← toList_commaSeparated] at hlist
  simpa [Node.canonical] using hlist.array

theorem member {loc : Location} {property : String} (h : ReadsBack names node)
    (hproperty : isIdentifier property = true) : ReadsBack names (.member loc node property) := by
  have hmangle := (isIdentifier_iff.mp (isIdentifier_mangle hproperty)).2
  refine of_object rfl (fun _ => rfl) fun {text} htext => ?_
  obtain ⟨_, -, hmore⟩ := bind_eq_ok_iff.mp htext
  obtain ⟨object, hobject, htext⟩ := bind_eq_ok_iff.mp hmore
  obtain rfl := pure_eq_ok_iff.mp htext
  have hread := (h.object hobject).member hmangle
  simpa [Node.canonical] using hread

theorem index {loc : Location} (hobject : ReadsBack names left)
    (hposition : ReadsBack names right) :
    ReadsBack names (.index loc left right) := by
  refine of_object rfl (fun _ => rfl) fun {text} htext => ?_
  obtain ⟨_, -, hmore⟩ := bind_eq_ok_iff.mp htext
  obtain ⟨object, hobjectText, hmore⟩ := bind_eq_ok_iff.mp hmore
  obtain ⟨position, hpositionText, htext⟩ := bind_eq_ok_iff.mp hmore
  obtain rfl := pure_eq_ok_iff.mp htext
  have hread := (hobject.object hobjectText).index (hposition.delimited hpositionText)
  simpa [Node.canonical] using hread

theorem callee (hnames : ∀ name, Spells name (names.callee name)) (hreadable : IsReadable node)
    (h : ReadsBack names node) {text : String}
    (htext : calleeText names node (expression names .delimited node) = .ok text) :
    IsObject text.toList node.canonical := by
  cases node with
  | identifier loc name =>
    cases hreadable with
    | identifier hname =>
      obtain rfl : names.callee name = text := pure_eq_ok_iff.mp htext
      exact (hnames name).isObject hname
  | _ =>
    obtain ⟨_, -, hmore⟩ := bind_eq_ok_iff.mp htext
    obtain ⟨callee, hcallee, htext⟩ := bind_eq_ok_iff.mp hmore
    obtain rfl := pure_eq_ok_iff.mp htext
    exact h.object hcallee

theorem call {loc : Location} {arguments : List Node}
    (hcallee : ∀ {text}, calleeText names node (expression names .delimited node) = .ok text →
      IsObject text.toList node.canonical)
    (harguments : ∀ argument ∈ arguments, ReadsBack names argument) :
    ReadsBack names (.call loc node arguments) := by
  refine of_object rfl (fun _ => rfl) fun {text} htext => ?_
  obtain ⟨head, hhead, hmore⟩ := bind_eq_ok_iff.mp htext
  obtain ⟨texts, htexts, htext⟩ := bind_eq_ok_iff.mp hmore
  obtain rfl := pure_eq_ok_iff.mp htext
  have hlist := isList_intercalate (by decide : ')' ∈ _) (expressions harguments htexts)
  rw [← toList_commaSeparated] at hlist
  rw [String.toList_append, toList_parenthesized]
  exact (hcallee hhead).call hlist

end ReadsBack

section

variable {names : Naming} (hreference : ∀ name, Spells name (names.reference name))
  (hcallee : ∀ name, Spells name (names.callee name)) {node : Node}

include hreference hcallee

/-- **Readable expressions are recognized.** -/
theorem IsReadable.readsBack (h : IsReadable node) : ReadsBack names node := by
  induction h with
  | identifier hname =>
    refine .of_object rfl (fun _ => rfl) fun {text} htext => ?_
    obtain rfl := pure_eq_ok_iff.mp htext
    exact (hreference _).isObject hname
  | string => exact .literal (isObject_quoted _)
  | @boolean _ value =>
    cases value with
    | true => exact .literal (isObject_name (by decide))
    | false => exact .literal (isObject_name (by decide))
  | null => exact .literal (isObject_name (by decide))
  | natural => exact .literal (isObject_number _)
  | array _ ih => exact .array ih
  | call _ hreadable _ hhead harguments =>
    exact .call (hhead.callee hcallee hreadable) harguments
  | member _ _ hproperty hobject => exact hobject.member hproperty
  | index _ _ _ hobject hposition => exact hobject.index hposition
  | binary hoperator _ _ hleft hright => exact .binary hoperator hleft hright
  | remainder _ _ hleft hright => exact .remainder hleft hright
  | unary hc hkind _ hargument => exact .unary hc hkind hargument

/-! ## The text determines the expression -/

/-- A whole readable text is read as its canonical form. -/
theorem IsReadableWhole.leads_whole (h : IsReadableWhole node) {text : String}
    (htext : expression names .delimited node = .ok text) :
    Leads (fun fuel => whole fuel text.toList) (fun _ => some node.canonical) := by
  cases h with
  | value h =>
    have hread := (h.readsBack hreference hcallee).delimited htext [] behindExpression_nil
    rw [List.append_nil] at hread
    exact hread.bind.trans (.of_eq fun _ => rfl)
  | @assign loc left right hleft hright =>
    obtain ⟨target, htarget, hmore⟩ := bind_eq_ok_iff.mp htext
    obtain ⟨value, hvalue, htext⟩ := bind_eq_ok_iff.mp hmore
    obtain rfl := pure_eq_ok_iff.mp htext
    have hsplit : (target ++ " = " ++ value).toList =
        target.toList ++ ' ' :: '=' :: ' ' :: value.toList := by simp
    have hfirst := (hleft.readsBack hreference hcallee).delimited htarget
      (' ' :: '=' :: ' ' :: value.toList) (behindExpression_assignment _)
    have hsecond := (hright.readsBack hreference hcallee).delimited hvalue [] behindExpression_nil
    rw [List.append_nil] at hsecond
    rw [hsplit]
    exact hfirst.bind.trans (hsecond.bind.trans (.of_eq fun _ => rfl))

end

/-- **The text determines the expression.** Two readable expressions that are written alike at one
place of a program are equal up to locations and up to names that are written alike. -/
theorem canonical_eq_of_expression_eq {v : Visibility}
    (hidentifier : isIdentifier v.namespaceName = true) (hstd : v.namespaceName ≠ "std")
    {first second : Node} (hfirst : IsReadableWhole first) (hsecond : IsReadableWhole second)
    (h : expression v.naming .delimited first = expression v.naming .delimited second) :
    first.canonical = second.canonical := by
  have hreference := v.spells_reference hidentifier hstd
  have hcallee := v.spells_callee hidentifier hstd
  have hjudged := judged_expression v.naming .delimited first
  obtain ⟨text, htext⟩ := (hjudged.isOk_iff fun _ _ => StrayInValue.not_isValue).mpr hfirst.isValue
  have hread := hfirst.leads_whole hreference hcallee htext
  have hread' := hsecond.leads_whole hreference hcallee (h ▸ htext)
  exact Option.some.inj (hread.unique hread')

/-- A name that is escaped and the name that it is escaped to make the same text, and the same
canonical form. -/
theorem canonical_eq_of_escaped :
    let v : Visibility :=
      { registry := .empty, namespaceName := "app", scopes := .empty, region := .function }
    let term (name : String) : Node :=
      .binary .unknown "-" (.identifier .unknown "x")
        (.binary .unknown "-" (.identifier .unknown name) (.literal .unknown (.string ") - (")))
    IsReadableWhole (term "class") ∧ IsReadableWhole (term "class_") ∧
      expression v.naming .delimited (term "class") = .ok "x - (class_ - \") - (\")" ∧
      expression v.naming .delimited (term "class_") = .ok "x - (class_ - \") - (\")" ∧
      (term "class").canonical = (term "class_").canonical := by
  intro v term
  have hterm : ∀ name, isIdentifier name = true → IsReadableWhole (term name) := fun name hname =>
    .value (.binary (by decide) (.identifier (by decide))
      (.binary (by decide) (.identifier hname) .string))
  have hfirst := hterm "class" (by decide)
  have hsecond := hterm "class_" (by decide)
  have hcanonical : (term "class").canonical = (term "class_").canonical :=
    canonical_eq_of_expression_eq (v := v) (by decide) (by decide) hfirst hsecond rfl
  exact ⟨hfirst, hsecond, rfl, rfl, hcanonical⟩

end TreeToCpp
